import Disassembly.Proofs.Index.Reference

/-! # The index that is built

Counting takes filler back, drops the checkpoints in it, and can stop in four ways. Whatever
happens on the way, the index that comes out is that of a plain list: the sweep from the true start,
cut before the first full run of filler.
-/

namespace Disassembly
namespace Index

/-- The index has `lines` of a sweep: the longest prefix that ends before the first full run of
filler. They tile the indexed range, and the checkpoints are sampled from them greedily. -/
structure Represents (x : Index) (config : Config) (sweep lines : List Instruction) : Prop where
  lines_isPrefix : lines <+: sweep
  length_le_run : ∀ k, RunAt Instruction.isFiller (max config.fillerRunLimit 1) sweep k →
    lines.length ≤ k
  run_of_ne : lines ≠ sweep →
    RunAt Instruction.isFiller (max config.fillerRunLimit 1) sweep lines.length
  lineCount_eq : x.lineCount = lines.length
  codeEnd_eq : x.codeEnd = (lines.getLast?.map (·.stop)).getD x.trueStart
  tiles : Tiles x.trueStart lines x.codeEnd
  checkpoints_eq : x.checkpoints = { offset := x.trueStart, line := 0 } ::
    sampled (max config.checkpointSpan 1) x.trueStart 0 lines

variable {σ : Type}

theorem ofZone_represents {z : Zone} {content : Array UInt8} {d : Decoding} (config : Config)
    (hd : d.Echoes) :
    (ofZone z content d config).Represents config (z.linear content d (z.trueStart content d))
      (z.lines content d config) := by
  have htiles := (@Zone.linear_tiles d content z hd (z.trueStart content d)).of_isPrefix
    (z.lines_isPrefix content d config)
  exact {
    lines_isPrefix := z.lines_isPrefix content d config
    length_le_run := fun k hk => length_beforeRun_le hk
    run_of_ne := fun hne => runAt_length_beforeRun hne
    lineCount_eq := rfl
    codeEnd_eq := htiles.reach_eq_stop
    tiles := htiles
    checkpoints_eq := rfl }

/-- Building gives an index that represents the sweep from where decoding starts. -/
theorem build_represents_sweep {z : Zone} {content : Array UInt8} {d : Decoding}
    {source : Source σ} {dec : Decoder σ} (config : Config) (hz : z.fault? = none)
    (hsize : z.stop ≤ content.size) (hsource : source.Serves content noFaults)
    (hdec : dec.Follows d noFaults) (hd : d.Echoes) (w : σ) :
    ∃ index lines, (build z source dec config w).1 = .ok index ∧
      index.Represents config (z.linear content d index.trueStart) lines :=
  ⟨ofZone z content d config, z.lines content d config,
    build_of_quiet hz hsize hd hsource hdec rfl, ofZone_represents config hd⟩

def paddedCode : Array UInt8 :=
  #[0x90, 0x90, 0, 0, 0, 0]

def paddedZone : Zone where
  start := 0
  size := 6
  entry := 0
  arch := .x64

theorem build_padded_represents :
    ∃ index lines, (build paddedZone (Source.ofBytes paddedCode)
        Decoding.zerosAsFiller.decoder { fillerRunLimit := 2 } ()).1 = .ok index ∧
      index.Represents { fillerRunLimit := 2 }
        (paddedZone.linear paddedCode Decoding.zerosAsFiller index.trueStart) lines :=
  build_represents_sweep { fillerRunLimit := 2 } (by decide) (by decide)
    (Source.ofBytes_serves paddedCode) Decoding.zerosAsFiller.decoder_follows
    Decoding.zerosAsFiller_regular.echoes ()

end Index
end Disassembly
