import Disassembly.Proofs.Seeker.Restoring
import Disassembly.Proofs.View.Labelling
import Disassembly.Proofs.View.Shortfall

/-! # Enriching a line again

A line is enriched where it is shown, in between seeks for other lines, and may be shown many times.
So nothing but the notes of the line may tell that it has been enriched, and those must not tell how
often. Failures are no exception: what could not be found out the first time is not noted later.
-/

namespace Disassembly

variable {σ : Type}

namespace Notes

/-- What may be noted about a line before it is marked as looked at: one thing at most, and only the
first time. A comment that is there stays. -/
inductive Gains (number : Nat) (n : Notes) : Notes → Prop
  | nothing : Gains number n n
  | call (function : String) (first : n.hasVisited number = false) :
      Gains number n (n.addCall number function)
  | comment (text : String) (first : n.hasVisited number = false)
      (none : n.comments.get? number = none) : Gains number n (n.addComment number text)

/-- The notes differ for one line at most, which has been looked at and has kept its comment. -/
structure ChangesOnly (number : Nat) (n n' : Notes) : Prop where
  comments_eq : ∀ j ≠ number, n'.comments.get? j = n.comments.get? j
  calls_eq : ∀ j ≠ number, n'.calls.get? j = n.calls.get? j
  visited_eq : ∀ j ≠ number, n'.hasVisited j = n.hasVisited j
  comment_kept : ∀ text, n.comments.get? number = some text →
    n'.comments.get? number = some text
  visited : n'.hasVisited number = true

variable {number : Nat} {n m : Notes}

theorem hasVisited_visit (j : Nat) :
    (n.visit number).hasVisited j = (j == number || n.hasVisited j) := by
  rw [hasVisited, visit, NatMap.contains, NatMap.get?_insert]
  by_cases hj : j = number
  · simp [hj]
  · simp [hj, hasVisited, NatMap.contains]

theorem visit_visit : (n.visit number).visit number = n.visit number := by
  rw [visit, visit, NatMap.insert_insert]

theorem Gains.changesOnly (h : n.Gains number m) : n.ChangesOnly number (m.visit number) := by
  have hvisited : m.visited = n.visited := by
    cases h <;> rfl
  constructor
  · intro j hj
    cases h with
    | comment text first none => exact (NatMap.get?_insert _ _ _ _).trans (if_neg hj)
    | _ => rfl
  · intro j hj
    cases h with
    | call function first => exact (NatMap.get?_insert _ _ _ _).trans (if_neg hj)
    | _ => rfl
  · intro j hj
    rw [hasVisited_visit, hasVisited, hvisited, beq_eq_false_iff_ne.2 hj, Bool.false_or]
    rfl
  · intro text htext
    cases h with
    | comment text' first none => cases none.symm.trans htext
    | _ => exact htext
  · simp [hasVisited_visit]

theorem Gains.eq_of_hasVisited (h : n.Gains number m) (hvisited : n.hasVisited number = true) :
    m = n := by
  cases h with
  | nothing => rfl
  | call function first => cases first.symm.trans hvisited
  | comment text first none => cases first.symm.trans hvisited

end Notes

namespace Enricher

variable {x : Enricher σ} {number value : Nat} {i : Instruction} {line : Line} {n : Notes}
  {k : Seeker} {w : σ}

/-! ### What is noted -/

theorem noteCall_gains (line : Line) (mapping : Mapping) :
    n.Gains line.number (x.noteCall line mapping n) := by
  rw [noteCall]
  split
  · rename_i hfirst
    split
    · exact .call _ (Bool.eq_false_of_not_eq_true hfirst.2.2)
    · exact .nothing
  · exact .nothing

theorem branch_gains (line : Line) : n.Gains line.number (x.branch line value n k w).2.1 := by
  rw [branch]
  dsimp only
  split
  · exact noteCall_gains { line with value := some value } _
  · exact .nothing

theorem push_gains : n.Gains number (x.push number value n w).1 := by
  rw [push]
  split
  · exact .nothing
  · rename_i hnew
    simp only [Bool.or_eq_true, not_or, NatMap.contains, Option.not_isSome_iff_eq_none] at hnew
    split
    · exact .comment _ (Bool.eq_false_of_not_eq_true hnew.1) hnew.2
    · exact .nothing

theorem enrich_notes (x : Enricher σ) (number : Nat) (i : Instruction) (n : Notes) (k : Seeker)
    (w : σ) :
    ∃ m, n.Gains number m ∧ (x.enrich number i n k w).2.1 = m.visit number := by
  rw [enrich]
  dsimp only
  split
  · exact ⟨_, branch_gains (.ofInstruction number i), rfl⟩
  · exact ⟨_, branch_gains (.ofInstruction number i), rfl⟩
  · exact ⟨_, push_gains, rfl⟩
  · exact ⟨n, .nothing, rfl⟩

/-! ### Where the seeker stands -/

theorem targetLine_seeker : (x.targetLine value k w).2.1 = k := by
  rw [targetLine]
  split
  · have hstop := k.byOffset_stop x.source x.decoder x.index value w
    dsimp only
    split <;> exact Seeker.restore_snapshot hstop
  · rfl

theorem branch_seeker : (x.branch line value n k w).2.2.1 = k := by
  rw [branch]
  dsimp only
  split
  · rfl
  · exact targetLine_seeker

theorem enrich_seeker (x : Enricher σ) (number : Nat) (i : Instruction) (n : Notes) (k : Seeker)
    (w : σ) : (x.enrich number i n k w).2.2.1 = k := by
  rw [enrich]
  dsimp only
  split
  · exact branch_seeker
  · exact branch_seeker
  · rfl
  · rfl

/-! ### The same line again -/

/-- What enriching an instruction amounts to, with the line, the notes and the world that it gives:
the seeker stays where it is, no other line is noted about, and enriching it again leaves the notes as
they are and gives the same line, except that its target may be missing where something fails. -/
structure EnrichesOnce (x : Enricher σ) (faults : σ → Nat) (number : Nat) (i : Instruction)
    (n : Notes) (k : Seeker) (w : σ) (l : Line) (n' : Notes) (w' : σ) : Prop where
  enrich_eq : x.enrich number i n k w = (l, n', k, w')
  notes : n.ChangesOnly number n'
  again : ∀ v, ∃ l' v', x.enrich number i n' k v = (l', n', k, v') ∧
    { l' with targetLine := l.targetLine } = l ∧
    (faults w' = faults w → faults v' = faults v → l' = l)

section Weathers

variable {faults : σ → Nat} {c : Scene}

/-- An instruction is shown as it is or without its target, the seeker is where it was, and the line
has gained a note at most. -/
theorem Weathers.enrich_gains (hx : x.Weathers c faults) (hd : c.decoding.Regular)
    (hz : c.zone.LiesIn c.content) (hk : k.Sound c.zone c.content c.decoding c.config)
    (number : Nat) (i : Instruction) (n : Notes) (w : σ) :
    ∃ l m w', x.enrich number i n k w = (l, m.visit number, k, w') ∧ n.Gains number m ∧
      (l = c.lineWith number i (c.landing? x.levels i) ∨
        l = c.lineWith number i none ∧ faults w < faults w') := by
  obtain ⟨l, n', k', w', henrich, -, -, hl⟩ := enrich_cases hx hd hz hk number i n w
  obtain ⟨m, hgains, hm⟩ := x.enrich_notes number i n k w
  have hseeker := x.enrich_seeker number i n k w
  rw [henrich] at hm hseeker
  obtain rfl : n' = _ := hm
  obtain rfl : k' = k := hseeker
  exact ⟨l, m, w', henrich, hgains, hl⟩

theorem Weathers.enrichesOnce (hx : x.Weathers c faults) (hd : c.decoding.Regular)
    (hz : c.zone.LiesIn c.content) (hk : k.Sound c.zone c.content c.decoding c.config)
    (number : Nat) (i : Instruction) (n : Notes) (w : σ) :
    ∃ l n' w', x.EnrichesOnce faults number i n k w l n' w' := by
  obtain ⟨l, m, w', henrich, hgains, hl⟩ := hx.enrich_gains hd hz hk number i n w
  refine ⟨l, m.visit number, w', henrich, hgains.changesOnly, fun v => ?_⟩
  obtain ⟨l', m', v', hagain, hgains', hl'⟩ :=
    hx.enrich_gains hd hz hk number i (m.visit number) v
  obtain rfl := hgains'.eq_of_hasVisited hgains.changesOnly.visited
  rw [Notes.visit_visit] at hagain
  refine ⟨l', v', hagain, ?_, fun hquiet hquiet' => ?_⟩
  · rcases hl with rfl | ⟨rfl, -⟩ <;> rcases hl' with rfl | ⟨rfl, -⟩ <;> rfl
  · -- without a failure there is nothing missing, either time
    rcases hl with rfl | ⟨-, hlt⟩
    · rcases hl' with rfl | ⟨-, hlt'⟩
      · rfl
      · omega
    · omega

end Weathers

variable {τ : Type} {z : Zone} {content : Array UInt8} {d : Decoding} {config : Config}
  {source : Source σ} {dec : Decoder σ} {y : Enricher τ} {faults : τ → Nat}

/-- With the index that is built, once is enough wherever the seeker has been before, and whatever
fails then or now. -/
theorem enrich_once (hz : z.fault? = none) (hsize : z.stop ≤ content.size) (hd : d.Regular)
    (hsource : source.Serves content noFaults) (hdec : dec.Follows d noFaults) {index : Index}
    {w₀ w₁ : σ} (hbuild : Index.build z source dec config w₀ = (.ok index, w₁))
    (hzone : y.zone = z) (hindex : y.index = index) (hsource' : y.source.Serves content faults)
    (hdec' : y.decoder.Follows d faults) (seeks : List Seeker.Request) (v : τ) (number : Nat)
    (i : Instruction) (n : Notes) (w : τ) :
    ∃ l n' w', y.EnrichesOnce faults number i n
      (Seeker.Session.run y.source y.decoder index seeks { seeker := .start z.stop } v).1.seeker w
      l n' w' := by
  obtain rfl := Index.eq_ofZone_of_build hz hsize hd.echoes hsource hdec hbuild rfl
  have hlies : z.LiesIn content := ⟨hz, hsize⟩
  have hseeker := Seeker.Session.run_sound hd hlies hsource' hdec'
    (@Seeker.Session.start_sound z content d config) seeks v
  have hy : y.Weathers { zone := z, content, decoding := d, config, env := y.env } faults :=
    ⟨hzone, rfl, hsource', hdec', hindex⟩
  exact hy.enrichesOnce hd hlies hseeker.seeker number i n w

def ofCalling : Enricher Interruptions where
  zone := Levels.callingZone
  config := {}
  env := {}
  source := .interrupted Levels.callingCode
  decoder := Levels.calling.interrupted
  index := Levels.callingIndex
  levels := .start Levels.callingIndex.lineCount

/-- The seeker has been interrupted before, and so is the search for what the call leads to. -/
theorem enrich_once_calling :
    ∃ l n' w', ofCalling.EnrichesOnce Interruptions.count 0
      { address := 0, bytes := [0xe8, 0x01, 0x00, 0x00, 0x00], mnemonic := "call", operands := "6" }
      {} (Seeker.Session.run ofCalling.source ofCalling.decoder Levels.callingIndex
        [.byOffset 6, .byLine 2] { seeker := .start Levels.callingZone.stop }
        { plan := [false, true] }).1.seeker { plan := [true] } l n' w' := by
  have hd : Levels.calling.Regular := Decoding.byForm_regular _
  have hsource := Source.ofBytes_serves (σ := Unit) Levels.callingCode
  have hbuild : (Index.build Levels.callingZone (Source.ofBytes Levels.callingCode)
      Levels.calling.decoder {} ()).1 = .ok Levels.callingIndex :=
    Index.build_of_quiet (by decide) (by decide) hd.echoes hsource Levels.calling.decoder_follows
      rfl
  exact enrich_once (y := ofCalling) (by decide) (by decide) hd hsource
    Levels.calling.decoder_follows (Prod.ext hbuild rfl) rfl rfl
    (Source.interrupted_serves Levels.callingCode) Levels.calling.interrupted_follows _ _ _ _ _ _

end Enricher

end Disassembly
