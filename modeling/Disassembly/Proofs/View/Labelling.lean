import Disassembly.Proofs.Seeker.Session
import Disassembly.Proofs.View.Scanning

/-! # Where the labels go

The targets of a zone go in from the lowest address to the highest. Each label that has gone in pushes
what is behind it down by one line, and the scan makes up for that by counting them. So in the end the
labels of an instruction stand right before it, in order, and nothing else has moved.
-/

namespace Disassembly

variable {σ : Type}

def Resolved.label? : Resolved → Option Label
  | .label l => some l
  | .instruction _ => none

namespace Zone

def labelsIn (z : Zone) (index : Index) (is : List Instruction) (i : Instruction) : List Label :=
  ((List.range' i.address i.length).filter fun address => z.IsTarget index is address).map
    (z.labelAt is)

/-- The lines with all labels: the instructions in order, and right before each of them the labels of
the addresses in it. -/
def labelledLines (z : Zone) (index : Index) (is : List Instruction) : List Resolved :=
  is.zipIdx.flatMap fun (i, n) => (z.labelsIn index is i).map .label ++ [.instruction n]

theorem labels_of_labelledLines {z : Zone} {index : Index} {is : List Instruction}
    (h : Tiles index.trueStart is index.codeEnd) :
    (z.labelledLines index is).filterMap Resolved.label? =
      (z.targetAddresses index is).map (z.labelAt is) := by
  have hlabels : ∀ p : Instruction × Nat, ((z.labelsIn index is p.1).map Resolved.label ++
      [Resolved.instruction p.2]).filterMap Resolved.label? = z.labelsIn index is p.1 := by
    intro p
    simp [List.filterMap_map, Function.comp_def, Resolved.label?]
  have hfst : ∀ f : Instruction → List Label, is.zipIdx.flatMap (fun p => f p.1) =
      is.flatMap f := by
    intro f
    rw [← List.flatMap_map Prod.fst f, List.zipIdx_map_fst]
  rw [labelledLines, List.filterMap_flatMap, targetAddresses, h.range'_eq_flatMap,
    List.filter_flatMap, List.map_flatMap]
  simp only [hlabels]
  exact hfst _

/-- No two labels have the same name. -/
theorem labelAt_names_nodup (z : Zone) (index : Index) (is : List Instruction) :
    ((z.targetAddresses index is).map fun address => (z.labelAt is address).name).Nodup := by
  apply List.pairwise_map.2
  apply (z.targetAddresses_pairwise index is).imp
  intro a b hlt hname
  exact Nat.ne_of_lt hlt (labelAt_name_injective hname)

end Zone

/-- Levels with all labels of the zone: each address that is to be labelled has one label, right
before the instruction that it is in, and no two labels have the same name. -/
structure Levels.Labelled (s : Levels) (z : Zone) (index : Index) (is : List Instruction) :
    Prop where
  answersFlat : s.AnswersFlat index.lineCount (z.labelledLines index is)
  labels_eq : (z.labelledLines index is).filterMap Resolved.label? =
    (z.targetAddresses index is).map (z.labelAt is)
  names_nodup : ((z.targetAddresses index is).map fun address => (z.labelAt is address).name).Nodup

namespace Scene

variable {c : Scene}

def targetsIn (c : Scene) (i : Instruction) : List LabelTarget :=
  ((List.range' i.address i.length).filter
    fun address => c.zone.IsTarget c.index c.instructions address).map
      fun address => { address, reason := c.zone.reasonFor c.instructions address }

theorem targets_eq_flatMap (hd : c.decoding.Regular) (hz : c.zone.LiesIn c.content) :
    c.targets = c.instructions.flatMap c.targetsIn := by
  have htiles : Tiles c.index.trueStart c.instructions c.index.codeEnd :=
    Index.lines_tiles hd.echoes
  rw [targets_eq hd hz, LabelTarget.collect_eq_map, Zone.targetAddresses, htiles.range'_eq_flatMap,
    List.filter_flatMap, List.map_flatMap]
  rfl

theorem map_labelOf_targetsIn (i : Instruction) :
    (c.targetsIn i).map labelOf = c.zone.labelsIn c.index c.instructions i := by
  rw [targetsIn, Zone.labelsIn, List.map_map]
  apply List.map_congr_left
  intro address _
  simp [labelOf, Zone.nameFor_reasonFor, Zone.labelAt]

theorem lineAt?_of_mem_targetsIn (hd : c.decoding.Echoes) {i : Instruction} {line : Nat}
    (hi : c.instructions[line]? = some i) {t : LabelTarget} (ht : t ∈ c.targetsIn i) :
    c.lineAt? t.address = some line := by
  simp only [targetsIn, List.mem_map, List.mem_filter, List.mem_range'_1] at ht
  obtain ⟨address, ⟨⟨hle, hlt⟩, -⟩, rfl⟩ := ht
  have hcontains : i.contains address = true := by
    simp [Instruction.contains, Instruction.stop, hle, hlt]
  rw [lineAt?, (Zone.seekOffset_eq_some_iff hd).2 ⟨line, i, hi, hcontains, rfl⟩]
  rfl

theorem insertIdx_append {α : Type} (front back : List α) (a : α) :
    (front ++ back).insertIdx front.length a = front ++ a :: back := by
  induction front with
  | nil => rfl
  | cons b front ih => simp [ih]

/-- The targets of one instruction go in one behind the other, right before it. -/
theorem labelled_block {n line done : Nat} {front back : List Resolved} {s : Levels}
    (hs : s.Models n (front ++ back)) (hfront : front.length = line + done)
    {block : List LabelTarget} (hblock : ∀ t ∈ block, c.lineAt? t.address = some line)
    (ts : List LabelTarget) :
    ∃ s', c.labelled done (block ++ ts) s = c.labelled (done + block.length) ts s' ∧
      s'.Models n (front ++ (block.map labelOf).map .label ++ back) := by
  induction block generalizing front done s with
  | nil => exact ⟨s, rfl, by simpa using hs⟩
  | cons t block ih =>
    -- `done` counts the labels before the line, those of the block that are in already among them
    have hle : line + done ≤ (front ++ back).length := by
      rw [List.length_append]
      omega
    have hinsert := hs.perform (.insert (line + done) (labelOf t))
    rw [Levels.performFlat, if_pos hle, ← hfront, insertIdx_append, List.append_cons] at hinsert
    have hnext : (front ++ [Resolved.label (labelOf t)]).length = line + (done + 1) := by
      simp [hfront, Nat.add_assoc]
    obtain ⟨s', hs', hmodels⟩ := ih hinsert hnext
      fun u hu => hblock u (List.mem_cons_of_mem t hu)
    refine ⟨s', ?_, by simpa using hmodels⟩
    rw [List.cons_append, labelled, hblock t List.mem_cons_self]
    dsimp only
    rw [← hfront, hs', List.length_cons, Nat.add_assoc, Nat.add_comm 1]

theorem labelled_lines (hd : c.decoding.Echoes) {n line done : Nat} {front : List Resolved}
    {js : List Instruction} {s : Levels}
    (hs : s.Models n (front ++ (js.zipIdx line).map fun p => .instruction p.2))
    (hfront : front.length = line + done)
    (hjs : ∀ k i, js[k]? = some i → c.instructions[line + k]? = some i) :
    (c.labelled done (js.flatMap c.targetsIn) s).Models n (front ++ (js.zipIdx line).flatMap
      fun (i, m) => (c.zone.labelsIn c.index c.instructions i).map .label ++ [.instruction m]) := by
  induction js generalizing line done front s with
  | nil => exact hs
  | cons i js ih =>
    obtain ⟨s', hs', hmodels⟩ := labelled_block hs hfront
      (fun t ht => lineAt?_of_mem_targetsIn hd (hjs 0 i rfl) ht) (js.flatMap c.targetsIn)
    rw [map_labelOf_targetsIn, List.zipIdx_cons, List.map_cons, List.append_cons] at hmodels
    -- the instruction itself belongs to what is in front of the next one's labels
    have hnext : (front ++ (c.zone.labelsIn c.index c.instructions i).map Resolved.label ++
        [Resolved.instruction line]).length = line + 1 + (done + (c.targetsIn i).length) := by
      rw [← map_labelOf_targetsIn]
      simp [hfront]
      omega
    have hrest := ih hmodels hnext fun k j hj => by
      rw [Nat.add_right_comm, Nat.add_assoc]
      exact hjs (k + 1) j hj
    rw [List.flatMap_cons, hs', List.zipIdx_cons, List.flatMap_cons]
    simpa using hrest

/-- Scanned levels without labels have all labels right before their instructions. -/
theorem labelled_targets (hd : c.decoding.Regular) (hz : c.zone.LiesIn c.content) {n : Nat}
    {s : Levels} (hs : s.Models n ((List.range c.index.lineCount).map .instruction)) :
    (c.labelled 0 c.targets s).Models n
      (c.zone.labelledLines c.index c.instructions) := by
  have hplain : (List.range c.index.lineCount).map Resolved.instruction =
      [] ++ (c.instructions.zipIdx 0).map fun p => .instruction p.2 := by
    have hcount : c.index.lineCount = c.instructions.length := rfl
    rw [List.nil_append, List.range_eq_range', hcount, ← List.zipIdx_map_snd 0 c.instructions,
      List.map_map]
    rfl
  rw [targets_eq_flatMap hd hz]
  rw [hplain] at hs
  exact labelled_lines hd.echoes hs rfl fun k i hi => by rwa [Nat.zero_add]

theorem labelled_of_models (hd : c.decoding.Echoes) {s : Levels}
    (hs : s.Models c.index.lineCount (c.zone.labelledLines c.index c.instructions)) :
    s.Labelled c.zone c.index c.instructions where
  answersFlat := hs.answersFlat
  labels_eq := Zone.labels_of_labelledLines (Index.lines_tiles hd)
  names_nodup := c.zone.labelAt_names_nodup c.index c.instructions

theorem scan_labelled {source : Source σ} {dec : Decoder σ} {k : Seeker} (hd : c.decoding.Regular)
    (hz : c.zone.LiesIn c.content) (hsource : source.Serves c.content noFaults)
    (hdec : dec.Follows c.decoding noFaults)
    (hk : k.Sound c.zone c.content c.decoding c.config) {s : Levels}
    (hs : s.Models c.index.lineCount ((List.range c.index.lineCount).map .instruction))
    (hcount : s.labelCount = 0) (w : σ) :
    ∃ s' k' w', s.scan c.zone source dec c.index k w =
        (.ok (c.zone.targetAddresses c.index c.instructions).length, s', k', w') ∧
      s'.Labelled c.zone c.index c.instructions := by
  have hlength : c.targets.length = (c.zone.targetAddresses c.index c.instructions).length := by
    rw [targets_eq hd hz, LabelTarget.collect_eq_map, List.length_map]
  cases hscan : s.scan c.zone source dec c.index k w with
  | mk r rest =>
    obtain ⟨s', k', w'⟩ := rest
    obtain ⟨-, -, ⟨rfl, rfl⟩ | ⟨-, hlt⟩⟩ := scan_cases hd hz hsource hdec hdec hk hs hcount hscan
    · rw [hlength]
      exact ⟨_, k', w', rfl, labelled_of_models hd.echoes (labelled_targets hd hz hs)⟩
    · exact absurd hlt (Nat.lt_irrefl 0)

end Scene

/-- Lines without labels are the instructions. -/
theorem eq_map_of_filterMap_code? {entries : List Resolved}
    (h : entries.length ≤ (entries.filterMap Resolved.code?).length) :
    entries = (entries.filterMap Resolved.code?).map .instruction := by
  induction entries with
  | nil => rfl
  | cons e entries ih =>
    cases e with
    | label l =>
      have hle := List.length_filterMap_le Resolved.code? entries
      rw [List.filterMap_cons_none rfl, List.length_cons] at h
      omega
    | instruction r =>
      rw [List.filterMap_cons_some (show Resolved.code? (.instruction r) = some r from rfl)] at h ⊢
      rw [List.map_cons, ← ih (by simpa using h)]

namespace Levels

theorem Models.eq_of_no_labels {s : Levels} {n : Nat} {flat : List Resolved} (h : s.Models n flat)
    (hcount : s.labelCount = 0) : flat = (List.range n).map .instruction := by
  have hlength := h.length_eq.trans h.size_eq
  rw [← h.code]
  apply eq_map_of_filterMap_code?
  simp [h.code, hlength, hcount]

variable {τ : Type} {z : Zone} {content : Array UInt8} {d : Decoding} {config : Config}
  {source : Source σ} {dec : Decoder σ} {source' : Source τ} {dec' : Decoder τ} {faults : τ → Nat}

/-- With the index that is built, levels without labels get all labels of the zone from a scan,
however they are nested, and wherever the seeker has been before. -/
theorem scan_labels (hz : z.fault? = none) (hsize : z.stop ≤ content.size) (hd : d.Regular)
    (hsource : source.Serves content noFaults) (hdec : dec.Follows d noFaults) {index : Index}
    {w₀ w₁ : σ} (hbuild : Index.build z source dec config w₀ = (.ok index, w₁))
    (hsource' : source'.Serves content faults) (hdec' : dec'.Follows d faults)
    (seeks : List Seeker.Request) (v : τ) (requests : List Request)
    (hcount : (requests.foldl perform (start index.lineCount)).labelCount = 0) (w : σ) :
    ∃ s' k' w', (requests.foldl perform (start index.lineCount)).scan z source dec index
        (Seeker.Session.run source' dec' index seeks { seeker := .start z.stop } v).1.seeker w =
          (.ok (z.targetAddresses index
            ((z.linear content d index.trueStart).take index.lineCount)).length, s', k', w') ∧
      s'.Labelled z index ((z.linear content d index.trueStart).take index.lineCount) := by
  obtain rfl := Index.eq_ofZone_of_build hz hsize hd.echoes hsource hdec hbuild rfl
  have hlies : z.LiesIn content := ⟨hz, hsize⟩
  have hseeker := Seeker.Session.run_sound hd hlies hsource' hdec'
    (@Seeker.Session.start_sound z content d config) seeks v
  have hmodels := (start_models (Index.ofZone z content d config).lineCount).run requests
  rw [hmodels.eq_of_no_labels hcount] at hmodels
  rw [Index.take_linear_ofZone]
  exact Scene.scan_labelled (c := { zone := z, content, decoding := d, config }) hd hlies hsource
    hdec hseeker.seeker hmodels hcount w

def callingCode : Array UInt8 :=
  #[0xe8, 0x01, 0x00, 0x00, 0x00, 0xeb, 0xff, 0x90]

def callingZone : Zone where
  start := 0
  size := 8
  entry := 0
  arch := .x64

def calling : Decoding :=
  .byForm fun byte =>
    if byte = 0xe8 then { length := 5, mnemonic := "call", operands := "6" }
    else if byte = 0xeb then { length := 2, mnemonic := "jmp", operands := "6" }
    else { length := 1, mnemonic := "nop" }

def callingIndex : Index :=
  .ofZone callingZone callingCode calling {}

/-- There is a level for the last two lines, and the seeker has been interrupted before. -/
theorem scan_labels_calling :
    ∃ s' k' w', ([Request.addLevel 1 3, .resolve 2].foldl perform
        (start callingIndex.lineCount)).scan callingZone (Source.ofBytes callingCode)
          calling.decoder callingIndex
          (Seeker.Session.run (Source.interrupted callingCode) calling.interrupted callingIndex
            [.byOffset 6, .byLine 2] { seeker := .start callingZone.stop }
            { plan := [false, true] }).1.seeker () =
          (.ok (callingZone.targetAddresses callingIndex
            ((callingZone.linear callingCode calling callingIndex.trueStart).take
              callingIndex.lineCount)).length, s', k', w') ∧
      s'.Labelled callingZone callingIndex
        ((callingZone.linear callingCode calling callingIndex.trueStart).take
          callingIndex.lineCount) := by
  have hd : calling.Regular := Decoding.byForm_regular _
  have hsource := Source.ofBytes_serves (σ := Unit) callingCode
  have hbuild : (Index.build callingZone (Source.ofBytes callingCode) calling.decoder {} ()).1 =
      .ok callingIndex :=
    Index.build_of_quiet (by decide) (by decide) hd.echoes hsource calling.decoder_follows rfl
  exact scan_labels (by decide) (by decide) hd hsource calling.decoder_follows
    (Prod.ext hbuild rfl) (Source.interrupted_serves callingCode) calling.interrupted_follows _ _ _
    (by decide +kernel) ()

end Levels
end Disassembly
