import Disassembly.Proofs.View.Following
import Disassembly.Proofs.View.Steadiness

/-! # What a failure leaves of a line

Reads and decodes may fail at any time. A line is then rendered as far as it goes: it is the line that
is there, or that line without its target, or a failed line, behind which nothing more is rendered.
Only something that has failed meanwhile makes it less than it is.
-/

namespace Disassembly

variable {σ : Type} {faults : σ → Nat} {c : Scene}

namespace Scene

/-- The virtual line that an instruction is shown to lead to, if the lines are those of `s`. -/
def landing? (c : Scene) (s : Levels) (i : Instruction) : Option Nat :=
  (i.branchTarget? c.zone.arch).bind fun value =>
    if (c.env.symbolFor? value).isSome then none else (c.lineAt? value).map s.lineOfReal

def lineWith (c : Scene) (number : Nat) (i : Instruction) (targetLine : Option Nat) : Line :=
  { c.instructionLine false number i with targetLine }

/-- The record of a virtual line, if the lines are those of `s`. -/
def recordIn (c : Scene) (s : Levels) (number : Nat) : Line :=
  match entryOf s.root.contents number with
  | .label label => .ofLabel number label
  | .instruction real =>
    match c.instructions[real]? with
    | some i => c.lineWith number i (c.landing? s i)
    | none => .ofError number (s.outOfRange number)

/-- What may be rendered of a line: all of it; or, if it has come to harm, the line without its target
or a failed line. -/
inductive Outcome (c : Scene) (s : Levels) (number : Nat) (harm : Prop) : Line → Prop
  | whole : Outcome c s number harm (c.recordIn s number)
  | untargeted (h : harm) : Outcome c s number harm { c.recordIn s number with targetLine := none }
  | failed (h : harm) (e : Error) : Outcome c s number harm (.ofError number e)

/-- What may be rendered of `count` lines from `number` on: nothing follows a failed line. -/
inductive Rendered (c : Scene) (s : Levels) (harm : Prop) : (number count : Nat) → List Line → Prop
  | done (number : Nat) : Rendered c s harm number 0 []
  | failed (number count : Nat) (h : harm) (e : Error) :
      Rendered c s harm number (count + 1) [.ofError number e]
  | line {number count : Nat} {l : Line} {ls : List Line} (outcome : Outcome c s number harm l)
      (kind_ne : ∀ e, l.kind ≠ .failed e) (rest : Rendered c s harm (number + 1) count ls) :
      Rendered c s harm number (count + 1) (l :: ls)

section Record

variable {s s' : Levels}

theorem landing?_congr (h : s.root = s'.root) (i : Instruction) :
    c.landing? s i = c.landing? s' i := by
  simp only [landing?, funext (Levels.lineOfReal_congr h)]

/-- Records depend on nothing but the root of the levels. -/
theorem recordIn_congr (h : s.root = s'.root) (number : Nat) :
    c.recordIn s number = c.recordIn s' number := by
  have hrange : s.outOfRange number = s'.outOfRange number := by
    rw [Levels.outOfRange, Levels.outOfRange, Levels.size, Levels.size, h]
  simp only [recordIn, landing?_congr h, hrange, h]

theorem Outcome.congr (h : s.root = s'.root) {number : Nat} {harm : Prop} {l : Line}
    (hl : c.Outcome s number harm l) : c.Outcome s' number harm l := by
  cases hl with
  | whole =>
    rw [recordIn_congr h]
    exact .whole
  | untargeted hharm =>
    rw [recordIn_congr h]
    exact .untargeted hharm
  | failed hharm e => exact .failed hharm e

theorem Rendered.congr (h : s.root = s'.root) {harm : Prop} {number count : Nat} {ls : List Line}
    (hls : c.Rendered s harm number count ls) : c.Rendered s' harm number count ls := by
  induction hls with
  | done number => exact .done number
  | failed number count hharm e => exact .failed number count hharm e
  | line outcome kind_ne rest ih => exact .line (outcome.congr h) kind_ne ih

theorem lineWith_branch {i : Instruction} {value : Nat}
    (h : i.branchTarget? c.zone.arch = some value) (number : Nat) (targetLine : Option Nat) :
    c.lineWith number i targetLine =
      { c.branchLine false value (.ofInstruction number i) with targetLine } := by
  rw [lineWith, c.instructionLine_of_branch h]

theorem lineWith_of_no_branch {i : Instruction} (h : i.branchTarget? c.zone.arch = none)
    (number : Nat) : c.lineWith number i none = c.instructionLine false number i := by
  obtain ⟨value, hline⟩ := c.instructionLine_of_no_branch h false number
  rw [lineWith, hline]
  rfl

theorem lineWith_number_kind (number : Nat) (i : Instruction) (targetLine : Option Nat) :
    (c.lineWith number i targetLine).number = number ∧
      (c.lineWith number i targetLine).kind = .instruction :=
  c.instructionLine_kind false number i

theorem recordIn_number (s : Levels) (number : Nat) : (c.recordIn s number).number = number := by
  rw [recordIn]
  split
  · rfl
  · split
    · exact (c.lineWith_number_kind number _ _).1
    · rfl

theorem lineWith_withoutRails (number : Nat) (i : Instruction) (targetLine : Option Nat) :
    (c.lineWith number i targetLine).withoutRails = c.lineWith number i targetLine := by
  have hrails : (c.instructionLine false number i).rails = {} :=
    congrArg Line.rails (c.instructionLine_withoutRails false number i).symm
  rw [lineWith, Line.withoutRails, ← hrails]

theorem recordIn_withoutRails (s : Levels) (number : Nat) :
    (c.recordIn s number).withoutRails = c.recordIn s number := by
  rw [recordIn]
  split
  · rfl
  · split
    · exact c.lineWith_withoutRails number _ _
    · rfl

theorem Outcome.number_eq {number : Nat} {harm : Prop} {l : Line}
    (h : c.Outcome s number harm l) : l.number = number := by
  cases h with
  | whole | untargeted => exact c.recordIn_number s number
  | failed => rfl

theorem Outcome.withoutRails_eq {number : Nat} {harm : Prop} {l : Line}
    (h : c.Outcome s number harm l) : l.withoutRails = l := by
  have hrails : (c.recordIn s number).rails = {} :=
    congrArg Line.rails (c.recordIn_withoutRails s number).symm
  cases h with
  | whole => exact c.recordIn_withoutRails s number
  | untargeted => rw [Line.withoutRails, ← hrails]
  | failed => rfl

theorem recordIn_kind {flat : List Resolved} (hs : s.Models c.index.lineCount flat) {number : Nat}
    (hnumber : number < s.size) (e : Error) : (c.recordIn s number).kind ≠ .failed e := by
  rw [recordIn]
  cases hon : entryOf s.root.contents number with
  | label label => simp [Line.ofLabel]
  | instruction real =>
    obtain ⟨i, hi⟩ : ∃ i, c.instructions[real]? = some i :=
      ⟨_, List.getElem?_eq_getElem (hs.lt_of_entry hnumber hon)⟩
    dsimp only
    rw [hi, (c.lineWith_number_kind number i _).2]
    simp

theorem Outcome.eq_ofError {number : Nat} {harm : Prop} {l : Line} (h : c.Outcome s number harm l)
    (hrecord : ∀ e, (c.recordIn s number).kind ≠ .failed e) {e : Error}
    (hkind : l.kind = .failed e) : harm ∧ ∃ e', l = .ofError number e' := by
  cases h with
  | whole => exact absurd hkind (hrecord e)
  | untargeted => exact absurd hkind (hrecord e)
  | failed hharm e' => exact ⟨hharm, e', rfl⟩

theorem Outcome.eq_of_not_harm {number : Nat} {harm : Prop} {l : Line}
    (h : c.Outcome s number harm l) (hquiet : ¬ harm) : l = c.recordIn s number := by
  cases h with
  | whole => rfl
  | untargeted hharm => exact absurd hharm hquiet
  | failed hharm e => exact absurd hharm hquiet

theorem Outcome.weaken {number : Nat} {harm harm' : Prop} {l : Line} (himp : harm → harm')
    (h : c.Outcome s number harm l) : c.Outcome s number harm' l := by
  cases h with
  | whole => exact .whole
  | untargeted hharm => exact .untargeted (himp hharm)
  | failed hharm e => exact .failed (himp hharm) e

theorem Rendered.weaken {number count : Nat} {harm harm' : Prop} {ls : List Line}
    (himp : harm → harm') (h : c.Rendered s harm number count ls) :
    c.Rendered s harm' number count ls := by
  induction h with
  | done number => exact .done number
  | failed number count hharm e => exact .failed number count (himp hharm) e
  | line outcome kind_ne rest ih => exact .line (outcome.weaken himp) kind_ne ih

theorem Rendered.withoutRails_eq {number count : Nat} {harm : Prop} {ls : List Line}
    (h : c.Rendered s harm number count ls) : ls.map Line.withoutRails = ls := by
  induction h with
  | done number => rfl
  | failed number count hharm e => rfl
  | line outcome kind_ne rest ih => rw [List.map_cons, outcome.withoutRails_eq, ih]

end Record

end Scene

theorem Source.Serves.faults_le_readClamped {source : Source σ} {content : Array UInt8}
    (h : source.Serves content faults) (offset length : Nat) (w : σ) :
    faults w ≤ faults (source.readClamped offset length w).2 := by
  rw [Source.readClamped]
  split
  · exact Nat.le_refl _
  · exact h.faults_le rfl

namespace Enricher

variable {x : Enricher σ} {k k' : Seeker} {w w' : σ}

/-- The enricher is one for the scene, over a file and with a decoder that may fail. -/
structure Weathers (x : Enricher σ) (c : Scene) (faults : σ → Nat) : Prop where
  zone_eq : x.zone = c.zone
  env_eq : x.env = c.env
  source : x.source.Serves c.content faults
  decoder : x.decoder.Follows c.decoding faults
  index_eq : x.index = c.index

theorem targetLine_cases (hx : x.Weathers c faults) (hd : c.decoding.Regular)
    (hz : c.zone.LiesIn c.content) (hk : k.Sound c.zone c.content c.decoding c.config) {value : Nat}
    {target : Option Nat} (h : x.targetLine value k w = (target, k', w')) :
    target = (c.lineAt? value).map x.levels.lineOfReal ∧ faults w' = faults w ∨
      target = none ∧ faults w < faults w' := by
  rw [targetLine, hx.index_eq] at h
  cases hcovers : c.index.covers value with
  | false =>
    rw [hcovers, if_neg Bool.false_ne_true] at h
    cases h
    rw [c.lineAt?_eq_none hd.echoes hcovers]
    exact .inl ⟨rfl, rfl⟩
  | true =>
    obtain ⟨line, hline, -⟩ := c.exists_lineAt?_of_covers hd.echoes hcovers
    rw [hcovers, if_pos rfl] at h
    cases hseek : k.byOffset x.source x.decoder c.index value w with
    | mk r rest =>
      obtain ⟨k₁, w₁⟩ := rest
      rw [hseek] at h
      obtain ⟨-, ⟨seek, rfl, rfl, hw⟩ | ⟨⟨e, rfl⟩, hw⟩⟩ :=
        Scene.byOffset_cases hd hz hx.source hx.decoder hk hline hseek
      · cases h
        rw [hline]
        exact .inl ⟨rfl, hw⟩
      · cases h
        exact .inr ⟨rfl, hw⟩

theorem branch_cases (hx : x.Weathers c faults) (hd : c.decoding.Regular)
    (hz : c.zone.LiesIn c.content) (hk : k.Sound c.zone c.content c.decoding c.config)
    {number : Nat} {i : Instruction} {value : Nat}
    (htaken : i.branchTarget? c.zone.arch = some value) {n n' : Notes} {l : Line}
    (h : x.branch (.ofInstruction number i) value n k w = (l, n', k', w')) :
    l = c.lineWith number i (c.landing? x.levels i) ∨
      l = c.lineWith number i none ∧ faults w < faults w' := by
  rw [Scene.lineWith_branch htaken, Scene.lineWith_branch htaken, Scene.landing?, htaken,
    Option.bind_some, Scene.branchLine]
  rw [branch, hx.env_eq] at h
  dsimp only at h
  cases hsymbol : c.env.symbolFor? value with
  | some mapping =>
    rw [hsymbol] at h
    cases h
    exact .inl rfl
  | none =>
    rw [hsymbol] at h
    cases htarget : x.targetLine value k w with
    | mk target rest =>
      obtain ⟨k₁, w₁⟩ := rest
      rw [htarget] at h
      cases h
      rcases targetLine_cases hx hd hz hk htarget with ⟨rfl, -⟩ | ⟨rfl, hw⟩
      · exact .inl rfl
      · exact .inr ⟨rfl, hw⟩

/-- An instruction that is no branch is shown as it is. -/
theorem enrich_of_no_branch (hzone : x.zone = c.zone) {i : Instruction}
    (hnone : i.branchTarget? c.zone.arch = none) (number : Nat) (n : Notes) :
    (x.enrich number i n k w).1 = c.lineWith number i none := by
  rw [c.lineWith_of_no_branch hnone]
  rw [Instruction.branchTarget?] at hnone
  simp only [enrich, Scene.instructionLine, hzone, Line.ofInstruction]
  cases hflow : i.flow <;> cases hliteral : i.literal? c.zone.arch <;>
    simp_all [Flow.isBranch]

theorem enrich_of_branch (hzone : x.zone = c.zone) {i : Instruction} {value : Nat}
    (htaken : i.branchTarget? c.zone.arch = some value) {number : Nat} {n n' : Notes} {l : Line}
    (h : x.branch (.ofInstruction number i) value n k w = (l, n', k', w')) :
    x.enrich number i n k w = (l, n'.visit number, k', w') := by
  rw [Instruction.branchTarget?] at htaken
  simp only [enrich, hzone]
  cases hflow : i.flow <;> simp_all [Flow.isBranch, Line.ofInstruction]

theorem faults_le_branch (hx : x.Weathers c faults) (hd : c.decoding.Regular)
    (hz : c.zone.LiesIn c.content) (hk : k.Sound c.zone c.content c.decoding c.config) (line : Line)
    (value : Nat) (n : Notes) (w : σ) : faults w ≤ faults (x.branch line value n k w).2.2.2 := by
  rw [branch]
  dsimp only
  split
  · exact Nat.le_refl _
  · rcases targetLine_cases hx hd hz hk (@rfl _ (x.targetLine value k w)) with ⟨-, hw⟩ | ⟨-, hw⟩
    · exact Nat.le_of_eq hw.symm
    · exact Nat.le_of_lt hw

theorem faults_le_push (hx : x.Weathers c faults) (number value : Nat) (n : Notes) (w : σ) :
    faults w ≤ faults (x.push number value n w).2 := by
  have hstring : faults w ≤ faults (x.stringFor? value w).2 := by
    rw [stringFor?]
    split
    · exact Nat.le_refl _
    · rename_i offset _
      split
      · exact Nat.le_refl _
      · have hread := hx.source.faults_le_readClamped offset (x.config.previewLength * 2) w
        split <;> rename_i h <;> rwa [h] at hread
  rw [push]
  split
  · exact Nat.le_refl _
  · split <;> rename_i h <;> rwa [h] at hstring

/-- Enriching a line undoes no failure. -/
theorem faults_le_enrich (hx : x.Weathers c faults) (hd : c.decoding.Regular)
    (hz : c.zone.LiesIn c.content) (hk : k.Sound c.zone c.content c.decoding c.config)
    (number : Nat) (i : Instruction) (n : Notes) (w : σ) :
    faults w ≤ faults (x.enrich number i n k w).2.2.2 := by
  rw [enrich]
  dsimp only
  split
  · exact faults_le_branch hx hd hz hk _ _ n w
  · exact faults_le_branch hx hd hz hk _ _ n w
  · exact faults_le_push hx number _ n w
  · exact Nat.le_refl _

/-- An instruction is shown as it is, but its target may be missing if something has failed. -/
theorem enrich_cases (hx : x.Weathers c faults) (hd : c.decoding.Regular)
    (hz : c.zone.LiesIn c.content) (hk : k.Sound c.zone c.content c.decoding c.config)
    (number : Nat) (i : Instruction) (n : Notes) (w : σ) :
    ∃ l n' k' w', x.enrich number i n k w = (l, n', k', w') ∧
      k'.Sound c.zone c.content c.decoding c.config ∧ faults w ≤ faults w' ∧
      (l = c.lineWith number i (c.landing? x.levels i) ∨
        l = c.lineWith number i none ∧ faults w < faults w') := by
  have hshown : (x.enrich number i n k w).1 = c.lineWith number i (c.landing? x.levels i) ∨
      (x.enrich number i n k w).1 = c.lineWith number i none ∧
        faults w < faults (x.enrich number i n k w).2.2.2 := by
    cases htaken : i.branchTarget? c.zone.arch with
    | none =>
      rw [enrich_of_no_branch hx.zone_eq htaken, Scene.landing?, htaken]
      exact .inl rfl
    | some value =>
      rw [enrich_of_branch hx.zone_eq htaken rfl]
      exact branch_cases hx hd hz hk htaken rfl
  exact ⟨_, _, _, _, rfl, enrich_sound hd hz hx.source hx.decoder hx.index_eq hk number i n w,
    faults_le_enrich hx hd hz hk number i n w, hshown⟩

end Enricher

/-- What an open zone keeps whatever fails. -/
structure OpenZone.Enduring (o : OpenZone σ) (c : Scene) (faults : σ → Nat) : Prop where
  lies : c.zone.LiesIn c.content
  decoder : o.decoder.Follows c.decoding faults
  index_eq : o.index = c.index
  seeker : o.seeker.Sound c.zone c.content c.decoding c.config
  levels : ∃ flat, o.levels.Models c.index.lineCount flat
  root_eq : o.scanned = false → o.levels.root = (Levels.start c.index.lineCount).root
  window : ∀ u ∈ o.window, c.Rendered o.levels True u.start
    (min (u.start + u.count) o.levels.size - u.start) (u.lines.map Line.withoutRails)

theorem OpenZone.Enduring.update {o : OpenZone σ} (ho : o.Enduring c faults) {levels : Levels}
    {seeker : Seeker} (hlevels : ∃ flat, levels.Models c.index.lineCount flat)
    (hroot : levels.root = o.levels.root)
    (hseeker : seeker.Sound c.zone c.content c.decoding c.config) (notes : Notes) :
    ({ o with levels, seeker, notes } : OpenZone σ).Enduring c faults where
  lies := ho.lies
  decoder := ho.decoder
  index_eq := ho.index_eq
  seeker := hseeker
  levels := hlevels
  root_eq hplain := hroot.trans (ho.root_eq hplain)
  window u hu := by
    have hwindow := (ho.window u hu).congr hroot.symm
    rwa [show o.levels.size = levels.size from congrArg Level.stop hroot.symm] at hwindow

theorem OpenZone.Enduring.with_window {o : OpenZone σ} (ho : o.Enduring c faults)
    {window : Option RenderedWindow} (hwindow : ∀ u ∈ window, c.Rendered o.levels True u.start
      (min (u.start + u.count) o.levels.size - u.start) (u.lines.map Line.withoutRails)) :
    ({ o with window } : OpenZone σ).Enduring c faults where
  lies := ho.lies
  decoder := ho.decoder
  index_eq := ho.index_eq
  seeker := ho.seeker
  levels := ho.levels
  root_eq := ho.root_eq
  window := hwindow

namespace View

variable {v : View σ} {o : OpenZone σ}

structure Weathers (v : View σ) (c : Scene) (faults : σ → Nat) : Prop where
  zone_eq : v.zone = c.zone
  config_eq : v.config = c.config
  env_eq : v.env = c.env
  source : v.source.Serves c.content faults
  decoder : ∀ w dec w', v.instructionSet.openDecoder c.zone.arch w = (.ok dec, w') →
    dec.Follows c.decoding faults

theorem renderLine_cases (hd : c.decoding.Regular) (hv : v.Weathers c faults)
    (ho : o.Enduring c faults) {number : Nat} (hnumber : number < o.levels.size) (w : σ) :
    ∃ l o' w', v.renderLine number o w = (l, o', w') ∧
      c.Outcome o.levels number (faults w < faults w') l ∧ o'.Enduring c faults ∧
      o'.levels.root = o.levels.root ∧ faults w ≤ faults w' := by
  obtain ⟨flat, hmodels⟩ := ho.levels
  have hentry := (hmodels.sound.resolve hnumber).1
  have hroot := o.levels.resolve_root number
  have hnext : ∃ flat, (o.levels.resolve number).2.Models c.index.lineCount flat :=
    ⟨_, hmodels.perform (.resolve number)⟩
  rw [renderLine]
  generalize o.levels.resolve number = resolved at hentry hroot hnext ⊢
  obtain ⟨r, levels⟩ := resolved
  obtain rfl : r = _ := hentry
  cases hon : entryOf o.levels.root.contents number with
  | label label =>
    have hrecord : c.recordIn o.levels number = .ofLabel number label := by
      rw [Scene.recordIn, hon]
    refine ⟨_, _, w, rfl, ?_, ho.update hnext hroot ho.seeker o.notes, hroot, Nat.le_refl _⟩
    exact hrecord ▸ .whole
  | instruction real =>
    obtain ⟨i, hi⟩ : ∃ i, c.instructions[real]? = some i :=
      ⟨_, List.getElem?_eq_getElem (hmodels.lt_of_entry hnumber hon)⟩
    have hrecord : c.recordIn o.levels number = c.lineWith number i (c.landing? levels i) := by
      rw [Scene.recordIn, hon, Scene.landing?_congr hroot]
      dsimp only
      rw [hi]
    dsimp only
    -- the record needs the instruction itself; once that is found, only the target can go missing
    cases hseek : o.seeker.byLine v.source o.decoder o.index real w with
    | mk r rest =>
      obtain ⟨k₁, w₁⟩ := rest
      obtain ⟨hk₁, ⟨rfl, hw₁⟩ | ⟨⟨e, rfl⟩, hlt⟩⟩ :=
        Scene.byLine_cases hd ho.lies hv.source ho.decoder ho.seeker hi (ho.index_eq ▸ hseek)
      · have hx : Enricher.Weathers (σ := σ) {
            zone := v.zone, config := v.config, env := v.env, source := v.source
            decoder := o.decoder, index := o.index, levels } c faults :=
          ⟨hv.zone_eq, hv.env_eq, hv.source, ho.decoder, ho.index_eq⟩
        obtain ⟨l, n, k₂, w₂, henrich, hk₂, hle, hshown⟩ :=
          Enricher.enrich_cases hx hd ho.lies hk₁ number i o.notes w₁
        dsimp only
        rw [show (Index.seekOn _ real i).instruction = i from rfl, henrich]
        rw [hw₁] at hle hshown
        refine ⟨l, _, w₂, rfl, ?_, ho.update hnext hroot hk₂ n, hroot, hle⟩
        rcases hshown with rfl | ⟨rfl, hlt⟩
        · exact hrecord ▸ .whole
        · have huntargeted : c.Outcome o.levels number (faults w < faults w₂)
              { c.recordIn o.levels number with targetLine := none } := .untargeted hlt
          rwa [hrecord] at huntargeted
      · exact ⟨_, _, w₁, rfl, .failed hlt _, ho.update hnext hroot hk₁ o.notes, hroot,
          Nat.le_of_lt hlt⟩

/-- Lines are rendered up to the first that fails, and the zone endures. -/
theorem renderLines_cases (hd : c.decoding.Regular) (hv : v.Weathers c faults)
    (ho : o.Enduring c faults) (done : List Line) {count number : Nat}
    (hlines : ∀ k, number ≤ k → k < number + count → k < o.levels.size) (w : σ) :
    ∃ ls o' w', v.renderLines done count number o w = (done.reverse ++ ls, o', w') ∧
      c.Rendered o.levels (faults w < faults w') number count ls ∧ o'.Enduring c faults ∧
      o'.levels.root = o.levels.root ∧ faults w ≤ faults w' := by
  induction count generalizing done number o w with
  | zero =>
    exact ⟨[], o, w, by rw [List.append_nil]; rfl, .done number, ho, rfl, Nat.le_refl _⟩
  | succ count ih =>
    have hnumber := hlines number (Nat.le_refl number) (by omega)
    obtain ⟨flat, hmodels⟩ := ho.levels
    obtain ⟨l, o₁, w₁, hline, houtcome, ho₁, hroot, hle⟩ := renderLine_cases hd hv ho hnumber w
    rw [renderLines, hline]
    dsimp only
    split
    · rename_i e he
      obtain ⟨hlt, e', rfl⟩ := houtcome.eq_ofError (c.recordIn_kind hmodels hnumber) he
      exact ⟨_, o₁, w₁, by rw [List.reverse_cons], .failed number count hlt e', ho₁, hroot, hle⟩
    · rename_i hkind
      have hsize : o₁.levels.size = o.levels.size := congrArg Level.stop hroot
      have hrest : ∀ k, number + 1 ≤ k → k < number + 1 + count → k < o₁.levels.size := by
        intro k hle hlt
        rw [hsize]
        exact hlines k (by omega) (by omega)
      obtain ⟨ls, o', w', hrender, hls, ho', hroot', hle'⟩ := ih ho₁ (l :: done) hrest w₁
      rw [List.reverse_cons, List.append_assoc] at hrender
      refine ⟨l :: ls, o', w', hrender, .line (houtcome.weaken ?_) hkind ?_, ho',
        hroot'.trans hroot, Nat.le_trans hle hle'⟩
      · exact fun hlt => Nat.lt_of_lt_of_le hlt hle'
      · exact (hls.congr hroot).weaken fun hlt => Nat.lt_of_le_of_lt hle hlt

theorem renderWindow_cases (hd : c.decoding.Regular) (hv : v.Weathers c faults)
    (ho : o.Enduring c faults) (start count : Nat) (w : σ) :
    ∃ lines o' w', v.renderWindow start count o w = (lines, o', w') ∧
      c.Rendered o.levels (faults w < faults w') start
        (min (start + count) o.levels.size - start) (lines.map Line.withoutRails) ∧
      o'.Enduring c faults := by
  have hshown : ∀ k, start ≤ k → k < start + (min (start + count) o.levels.size - start) →
      k < o.levels.size := by
    intro k hle hlt
    omega
  obtain ⟨ls, o', w', hrender, hls, ho', hroot, -⟩ := renderLines_cases hd hv ho [] hshown w
  rw [List.reverse_nil, List.nil_append] at hrender
  have hlines : c.Rendered o.levels (faults w < faults w') start
      (min (start + count) o.levels.size - start)
      ((if v.config.arrows then (layoutArrows ls).1 else ls).map Line.withoutRails) := by
    split
    · rwa [layoutArrows_withoutRails, hls.withoutRails_eq]
    · rwa [hls.withoutRails_eq]
  refine ⟨_, _, w', by rw [renderWindow, hrender], hlines, ho'.with_window fun u hu => ?_⟩
  cases hu
  have hkept := (hlines.congr hroot.symm).weaken fun _ => trivial
  rwa [show o.levels.size = o'.levels.size from congrArg Level.stop hroot.symm] at hkept

end View
end Disassembly
