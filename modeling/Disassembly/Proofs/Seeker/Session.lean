import Disassembly.Proofs.Index.Built
import Disassembly.Proofs.Seeker.Seek

/-! # Seeking does not remember

Seeks may follow one another in any order, with positions saved, restored and given up in between,
and any of the calls that they make may fail. None of that shows: a seek that succeeds finds what the
sweep has there, and one in which nothing fails succeeds exactly if there is something to find.
-/

namespace Disassembly

variable {σ : Type}

inductive Seeker.Request where
  | byLine (line : Nat)
  | byOffset (offset : Nat)
  | snapshot
  /-- Back to a snapshot; `k` counts them from the newest. -/
  | restore (k : Nat)
  | reset

/-- A seeker with its snapshots, the newest first. -/
structure Seeker.Session where
  seeker : Seeker
  saved : List Position := []

/-- Each seek in the world `w` gives what `sweep` has on an indexed line, and if nothing fails it
succeeds exactly when it is asked for an indexed line, or for an offset in the indexed code. -/
structure Seeker.SeeksExactly (source : Source σ) (dec : Decoder σ) (faults : σ → Nat)
    (index : Index) (sweep : List Instruction) (s : Seeker) (w : σ) : Prop where
  byLine_ok : ∀ line seek, (s.byLine source dec index line w).1 = .ok seek →
    ∃ i, line < index.lineCount ∧ sweep[line]? = some i ∧ seek = index.seekOn line i
  byLine_quiet : ∀ line, faults (s.byLine source dec index line w).2.2 = faults w →
    ((∃ seek, (s.byLine source dec index line w).1 = .ok seek) ↔ line < index.lineCount)
  byOffset_ok : ∀ offset seek, (s.byOffset source dec index offset w).1 = .ok seek →
    ∃ line i, line < index.lineCount ∧ sweep[line]? = some i ∧ i.contains offset = true ∧
      (∀ k j, sweep[k]? = some j → j.contains offset = true → k = line) ∧
      seek = index.seekOn line i
  byOffset_quiet : ∀ offset, faults (s.byOffset source dec index offset w).2.2 = faults w →
    ((∃ seek, (s.byOffset source dec index offset w).1 = .ok seek) ↔ index.covers offset = true)

namespace Seeker.Session

def perform (source : Source σ) (dec : Decoder σ) (index : Index) (request : Request)
    (session : Session) (w : σ) : Session × σ :=
  match request with
  | .byLine line =>
    let (_, seeker, w) := session.seeker.byLine source dec index line w
    ({ session with seeker }, w)
  | .byOffset offset =>
    let (_, seeker, w) := session.seeker.byOffset source dec index offset w
    ({ session with seeker }, w)
  | .snapshot => ({ session with saved := session.seeker.snapshot :: session.saved }, w)
  | .restore k =>
    match session.saved[k]? with
    | some p => ({ session with seeker := session.seeker.restore p }, w)
    | none => (session, w)
  | .reset => ({ session with seeker := session.seeker.reset }, w)

def run (source : Source σ) (dec : Decoder σ) (index : Index) :
    List Request → Session → σ → Session × σ
  | [], session, w => (session, w)
  | request :: requests, session, w =>
    let (session, w) := session.perform source dec index request w
    run source dec index requests session w

/-- The seeker is sound, and so is every position that it may come back to. -/
structure Sound (session : Session) (z : Zone) (content : Array UInt8) (d : Decoding)
    (config : Config) : Prop where
  seeker : session.seeker.Sound z content d config
  saved : ∀ p ∈ session.saved, p.Sound z content d config

section Run

variable {z : Zone} {content : Array UInt8} {d : Decoding} {config : Config} {source : Source σ}
  {dec : Decoder σ} {faults : σ → Nat} {session : Session}

theorem start_sound : (Session.mk (.start z.stop) []).Sound z content d config where
  seeker := ⟨rfl, nofun, nofun⟩
  saved := nofun

/-- Answering a request keeps a session sound, whatever fails. -/
theorem perform_sound (hd : d.Regular) (hz : z.LiesIn content)
    (hsource : source.Serves content faults) (hdec : dec.Follows d faults)
    (h : session.Sound z content d config) (request : Request) (w : σ) :
    (session.perform source dec (Index.ofZone z content d config) request w).1.Sound z content d
      config := by
  cases request with
  | byLine line =>
    exact ⟨(byLine_answers hd hz hsource hdec h.seeker rfl).1, h.saved⟩
  | byOffset offset =>
    exact ⟨(byOffset_answers hd hz hsource hdec h.seeker rfl).1, h.saved⟩
  | snapshot =>
    refine ⟨h.seeker, fun p hp => ?_⟩
    rcases List.mem_cons.1 hp with rfl | hp
    · exact h.seeker.position
    · exact h.saved p hp
  | restore k =>
    rw [perform]
    cases hk : session.saved[k]? with
    | none => exact h
    | some p => exact ⟨⟨h.seeker.stop_eq, h.saved p (List.mem_of_getElem? hk)⟩, h.saved⟩
  | reset => exact ⟨h.seeker.steady.sound_reset, h.saved⟩

theorem run_sound (hd : d.Regular) (hz : z.LiesIn content)
    (hsource : source.Serves content faults) (hdec : dec.Follows d faults)
    (h : session.Sound z content d config) (requests : List Request) (w : σ) :
    (run source dec (Index.ofZone z content d config) requests session w).1.Sound z content d
      config := by
  induction requests generalizing session w with
  | nil => exact h
  | cons request requests ih => exact ih (perform_sound hd hz hsource hdec h request w) _

end Run

end Seeker.Session

namespace Seeker

variable {z : Zone} {content : Array UInt8} {d : Decoding} {config : Config}

/-- A sound seeker seeks exactly, over the sweep from where decoding starts. -/
theorem Sound.seeksExactly {source : Source σ} {dec : Decoder σ} {faults : σ → Nat} {s : Seeker}
    (hd : d.Regular) (hz : z.LiesIn content) (hsource : source.Serves content faults)
    (hdec : dec.Follows d faults) (hs : s.Sound z content d config) (w : σ) :
    s.SeeksExactly source dec faults (Index.ofZone z content d config)
      (z.linear content d (z.trueStart content d)) w := by
  have hbyLine : ∀ line, Answers (z.seekLine content d config line)
      (s.byLine source dec (Index.ofZone z content d config) line w).1 (faults w)
      (faults (s.byLine source dec (Index.ofZone z content d config) line w).2.2) :=
    fun line => (byLine_answers hd hz hsource hdec hs rfl).2
  have hbyOffset : ∀ offset, Answers (z.seekOffset content d config offset)
      (s.byOffset source dec (Index.ofZone z content d config) offset w).1 (faults w)
      (faults (s.byOffset source dec (Index.ofZone z content d config) offset w).2.2) :=
    fun offset => (byOffset_answers hd hz hsource hdec hs rfl).2
  constructor
  · intro line seek hok
    obtain ⟨i, hi, hseek⟩ := Zone.seekLine_eq_some_iff.1 ((hbyLine line).want_eq hok)
    exact ⟨i, Zone.lt_lineCount hi, Zone.linear_of_lines hi, hseek⟩
  · intro line hquiet
    rw [(hbyLine line).ok_iff hquiet]
    constructor
    · rintro ⟨seek, hseek⟩
      obtain ⟨i, hi, -⟩ := Zone.seekLine_eq_some_iff.1 hseek
      exact Zone.lt_lineCount hi
    · intro hlt
      exact ⟨_, Zone.seekLine_eq_some_iff.2 ⟨_, List.getElem?_eq_getElem hlt, rfl⟩⟩
  · intro offset seek hok
    obtain ⟨line, i, hi, hcontains, hseek⟩ :=
      (Zone.seekOffset_eq_some_iff hd.echoes).1 ((hbyOffset offset).want_eq hok)
    have hsweep := @Zone.linear_tiles d content z hd.echoes (z.trueStart content d)
    have hlinear := Zone.linear_of_lines hi
    exact ⟨line, i, Zone.lt_lineCount hi, hlinear, hcontains,
      fun k j hj hk => hsweep.contains_unique hj hlinear hk hcontains, hseek⟩
  · intro offset hquiet
    rw [(hbyOffset offset).ok_iff hquiet, Zone.covers_iff hd.echoes]
    constructor
    · rintro ⟨seek, hseek⟩
      obtain ⟨line, i, hi, hcontains, -⟩ := (Zone.seekOffset_eq_some_iff hd.echoes).1 hseek
      exact ⟨line, i, hi, hcontains⟩
    · rintro ⟨line, i, hi, hcontains⟩
      exact ⟨_, (Zone.seekOffset_eq_some_iff hd.echoes).2 ⟨line, i, hi, hcontains, rfl⟩⟩

end Seeker

section Answers

variable {σ₀ : Type} {z : Zone} {content : Array UInt8} {d : Decoding} {config : Config}
  {source₀ : Source σ₀} {dec₀ : Decoder σ₀} {faults₀ : σ₀ → Nat} {source : Source σ}
  {dec : Decoder σ} {faults : σ → Nat}

/-- With an index that was built while nothing failed, seeks are exact after any requests, whatever
has failed meanwhile. -/
theorem Seeker.Session.run_seeksExactly (hz : z.fault? = none) (hsize : z.stop ≤ content.size)
    (hd : d.Regular) (hsource₀ : source₀.Serves content faults₀)
    (hdec₀ : dec₀.Follows d faults₀) {index : Index} {w₀ w₁ : σ₀}
    (hbuild : Index.build z source₀ dec₀ config w₀ = (.ok index, w₁))
    (hquiet : faults₀ w₁ = faults₀ w₀) (hsource : source.Serves content faults)
    (hdec : dec.Follows d faults) (requests : List Request) (w : σ) :
    (run source dec index requests { seeker := .start z.stop } w).1.seeker.SeeksExactly source dec
      faults index (z.linear content d index.trueStart)
      (run source dec index requests { seeker := .start z.stop } w).2 := by
  obtain rfl := Index.eq_ofZone_of_build hz hsize hd.echoes hsource₀ hdec₀ hbuild hquiet
  have hlies : z.LiesIn content := ⟨hz, hsize⟩
  exact (run_sound hd hlies hsource hdec start_sound requests w).seeker.seeksExactly hd hlies
    hsource hdec _

/-- The first window is read, but the first decode in it is interrupted. -/
theorem Seeker.Session.run_seeksExactly_interrupted :
    (run (Source.interrupted Index.paddedCode) Decoding.zerosAsFiller.interrupted
        (Index.ofZone Index.paddedZone Index.paddedCode Decoding.zerosAsFiller {})
        [.byLine 1, .snapshot, .byOffset 0, .restore 0]
        { seeker := .start Index.paddedZone.stop } { plan := [false, true] }).1.seeker.SeeksExactly
      (Source.interrupted Index.paddedCode) Decoding.zerosAsFiller.interrupted Interruptions.count
      (Index.ofZone Index.paddedZone Index.paddedCode Decoding.zerosAsFiller {})
      (Index.paddedZone.linear Index.paddedCode Decoding.zerosAsFiller
        (Index.paddedZone.trueStart Index.paddedCode Decoding.zerosAsFiller))
      (run (Source.interrupted Index.paddedCode) Decoding.zerosAsFiller.interrupted
        (Index.ofZone Index.paddedZone Index.paddedCode Decoding.zerosAsFiller {})
        [.byLine 1, .snapshot, .byOffset 0, .restore 0]
        { seeker := .start Index.paddedZone.stop } { plan := [false, true] }).2 := by
  have hregular := Decoding.zerosAsFiller_regular
  have hbuild := @Index.build_of_quiet Unit _ (Source.ofBytes Index.paddedCode) _ noFaults
    Index.paddedCode Index.paddedZone {} (by decide) (by decide) hregular.echoes
    (Source.ofBytes_serves Index.paddedCode) Decoding.zerosAsFiller.decoder_follows () rfl
  exact run_seeksExactly (by decide) (by decide) hregular (Source.ofBytes_serves Index.paddedCode)
    Decoding.zerosAsFiller.decoder_follows (Prod.ext hbuild rfl) rfl
    (Source.interrupted_serves Index.paddedCode) Decoding.zerosAsFiller.interrupted_follows _ _

end Answers
end Disassembly
