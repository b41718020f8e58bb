import Disassembly.Proofs.View.Enriching

/-! # Rendering a window

An open zone agrees with its scene if the index, the labels and the notes are the scene's, the seeker
and the running counts are sound, and the window that is kept is what the scene has there. Rendering
goes line by line and keeps all of this.
-/

namespace Disassembly

variable {σ : Type}

/-- What the open zone has computed and kept is what the scene has; `shown` are the lines shown since
the labels were looked for. -/
structure OpenZone.Agrees (o : OpenZone σ) (c : Scene) (shown : List Nat) : Prop where
  lies : c.zone.LiesIn c.content
  decoder : o.decoder.Follows c.decoding noFaults
  index_eq : o.index = c.index
  seeker : o.seeker.Sound c.zone c.content c.decoding c.config
  levels : o.levels.Sound
  root_eq : o.levels.root = (c.levels o.scanned).root
  notes : o.notes.Records c o.scanned shown
  window_eq : ∀ v ∈ o.window, v.lines = c.window o.scanned v.start v.count
  window_shown : ∀ v ∈ o.window, ∀ k, v.start ≤ k → k < v.start + v.count → k < o.levels.size →
    k ∈ shown

/-- What sounds the same agrees as well: levels with the same root, a sound seeker, and the notes for
what has been shown, if that is no less. -/
theorem OpenZone.Agrees.update {o : OpenZone σ} {c : Scene} {shown shown' : List Nat}
    (ho : o.Agrees c shown) {levels : Levels} {seeker : Seeker} {notes : Notes}
    (hlevels : levels.Sound) (hroot : levels.root = o.levels.root)
    (hseeker : seeker.Sound c.zone c.content c.decoding c.config)
    (hnotes : notes.Records c o.scanned shown') (hshown : shown ⊆ shown') :
    ({ o with levels, seeker, notes } : OpenZone σ).Agrees c shown' where
  lies := ho.lies
  decoder := ho.decoder
  index_eq := ho.index_eq
  seeker := hseeker
  levels := hlevels
  root_eq := hroot.trans ho.root_eq
  notes := hnotes
  window_eq := ho.window_eq
  window_shown v hv k hstart hstop hk :=
    hshown (ho.window_shown v hv k hstart hstop (by rwa [Levels.size, hroot] at hk))

theorem OpenZone.Agrees.with_window {o : OpenZone σ} {c : Scene} {shown : List Nat}
    (ho : o.Agrees c shown) {window : Option RenderedWindow}
    (heq : ∀ v ∈ window, v.lines = c.window o.scanned v.start v.count)
    (hshown : ∀ v ∈ window, ∀ k, v.start ≤ k → k < v.start + v.count → k < o.levels.size →
      k ∈ shown) : ({ o with window } : OpenZone σ).Agrees c shown where
  lies := ho.lies
  decoder := ho.decoder
  index_eq := ho.index_eq
  seeker := ho.seeker
  levels := ho.levels
  root_eq := ho.root_eq
  notes := ho.notes
  window_eq := heq
  window_shown := hshown

structure View.IsOf (v : View σ) (c : Scene) : Prop where
  zone_eq : v.zone = c.zone
  config_eq : v.config = c.config
  env_eq : v.env = c.env
  source : v.source.Serves c.content noFaults
  decoder : ∀ w dec w', v.instructionSet.openDecoder c.zone.arch w = (.ok dec, w') →
    dec.Follows c.decoding noFaults

namespace Scene

variable (c : Scene)

theorem lt_of_entry {scanned : Bool} {number real : Nat} (hnumber : number < (c.levels scanned).size)
    (h : c.entry scanned number = .instruction real) : real < c.index.lineCount := by
  obtain ⟨flat, hmodels⟩ := c.levels_models scanned
  exact hmodels.lt_of_entry hnumber h

theorem entry_cases {scanned : Bool} {number : Nat} (hnumber : number < (c.levels scanned).size) :
    (∃ label, c.entry scanned number = .label label ∧
        c.record scanned number = .ofLabel number label ∧ c.instructionOn? scanned number = none) ∨
      ∃ real i, c.entry scanned number = .instruction real ∧ c.instructions[real]? = some i ∧
        c.record scanned number = c.instructionLine scanned number i ∧
        c.instructionOn? scanned number = some i := by
  cases hentry : c.entry scanned number with
  | label label =>
    exact .inl ⟨label, rfl, by rw [record, hentry], by rw [instructionOn?, hentry]⟩
  | instruction real =>
    obtain ⟨i, hi⟩ : ∃ i, c.instructions[real]? = some i :=
      ⟨_, List.getElem?_eq_getElem (c.lt_of_entry hnumber hentry)⟩
    refine .inr ⟨real, i, rfl, hi, ?_, ?_⟩
    · rw [record, hentry]
      dsimp only
      rw [hi]
    · rw [instructionOn?, hentry]
      exact hi

theorem instructionLine_kind (scanned : Bool) (number : Nat) (i : Instruction) :
    (c.instructionLine scanned number i).number = number ∧
      (c.instructionLine scanned number i).kind = .instruction := by
  have hbranch : ∀ value, (c.branchLine scanned value (.ofInstruction number i)).number = number ∧
      (c.branchLine scanned value (.ofInstruction number i)).kind = .instruction := by
    intro value
    rw [branchLine]
    split <;> exact ⟨rfl, rfl⟩
  rw [instructionLine]
  split
  · exact hbranch _
  · exact hbranch _
  · exact ⟨rfl, rfl⟩
  · exact ⟨rfl, rfl⟩

theorem record_number {scanned : Bool} {number : Nat} (hnumber : number < (c.levels scanned).size) :
    (c.record scanned number).number = number ∧
      ∀ e, (c.record scanned number).kind ≠ .failed e := by
  rcases c.entry_cases hnumber with ⟨label, -, hrecord, -⟩ | ⟨real, i, -, -, hrecord, -⟩
  · rw [hrecord]
    exact ⟨rfl, fun e => by simp [Line.ofLabel]⟩
  · obtain ⟨hsame, hkind⟩ := c.instructionLine_kind scanned number i
    rw [hrecord, hkind]
    exact ⟨hsame, fun e => by simp⟩

end Scene

namespace View

variable {v : View σ} {c : Scene} {o : OpenZone σ} {shown : List Nat}

theorem resolve_eq_entry (ho : o.Agrees c shown) {number : Nat} (hnumber : number < o.levels.size) :
    ∃ levels, o.levels.resolve number = (.ok (c.entry o.scanned number), levels) ∧ levels.Sound ∧
      levels.root = o.levels.root := by
  obtain ⟨hresolve, hlevels⟩ := ho.levels.resolve hnumber
  have hentry : entryOf o.levels.root.contents number = c.entry o.scanned number := by
    rw [ho.root_eq, Scene.entry]
  exact ⟨_, Prod.ext (hresolve.trans (by rw [hentry])) rfl, hlevels, o.levels.resolve_root number⟩

theorem records_of_no_instruction (ho : o.Agrees c shown) {number : Nat}
    (hnone : c.instructionOn? o.scanned number = none) :
    o.notes.Records c o.scanned (shown ++ [number]) := by
  have hcomment : c.comment? o.scanned number = none := by
    rw [Scene.comment?, hnone, Option.bind_none]
  have hcall : c.call? o.scanned number = none := by
    rw [Scene.call?, hnone, Option.bind_none]
  exact ho.notes.show_line
    (NatMap.get?_eq_ite ((ho.notes.comment_eq_none hcomment).trans hcomment.symm))
    (NatMap.get?_eq_ite ((ho.notes.call_eq_none hcall).trans hcall.symm)) fun k hk => .inr hk

/-- Rendering a line gives its record, and adds it to what has been shown. -/
theorem renderLine_eq (hv : v.IsOf c) (hd : c.decoding.Regular) (ho : o.Agrees c shown)
    {number : Nat} (hnumber : number < o.levels.size) (w : σ) :
    ∃ o' w', v.renderLine number o w = (c.record o.scanned number, o', w') ∧
      o'.Agrees c (shown ++ [number]) ∧ o'.scanned = o.scanned ∧ o'.levels.size = o.levels.size := by
  have hsize : o.levels.size = (c.levels o.scanned).size := congrArg Level.stop ho.root_eq
  have hmore : shown ⊆ shown ++ [number] := List.subset_append_left shown [number]
  obtain ⟨levels, hresolve, hlevels, hroot⟩ := resolve_eq_entry ho hnumber
  rcases c.entry_cases (hsize ▸ hnumber) with
    ⟨label, hlabel, hrecord, hnone⟩ | ⟨real, i, hreal, hi, hrecord, hon⟩
  · refine ⟨{ o with levels }, w, ?_,
      ho.update hlevels hroot ho.seeker (records_of_no_instruction ho hnone) hmore, rfl,
      congrArg Level.stop hroot⟩
    rw [renderLine, hresolve, hlabel, hrecord]
  · obtain ⟨k₁, w₁, hseek, hk₁⟩ :=
      Scene.byLine_of_instructions hd ho.lies hv.source ho.decoder ho.seeker hi w
    have hsees : Enricher.Sees (σ := σ) {
        zone := v.zone, config := v.config, env := v.env, source := v.source
        decoder := o.decoder, index := o.index, levels } c o.scanned :=
      ⟨hv.zone_eq, hv.config_eq, hv.env_eq, hv.source, ho.decoder, ho.index_eq,
        hroot.trans ho.root_eq⟩
    obtain ⟨notes, k₂, w₂, hline, hk₂, hnotes⟩ :=
      Enricher.enrich_eq hsees hd ho.lies hk₁ ho.notes hon w₁
    refine ⟨{ o with levels, seeker := k₂, notes }, w₂, ?_,
      ho.update hlevels hroot hk₂ hnotes hmore, rfl, congrArg Level.stop hroot⟩
    rw [renderLine, hresolve, hreal]
    dsimp only
    rw [ho.index_eq, hseek]
    dsimp only
    rw [ho.index_eq] at hline
    rw [show (Index.seekOn _ real i).instruction = i from rfl, hline, hrecord]

theorem renderLines_eq (hv : v.IsOf c) (hd : c.decoding.Regular) (ho : o.Agrees c shown)
    (done : List Line) {count number : Nat}
    (hlines : ∀ k, number ≤ k → k < number + count → k < o.levels.size) (w : σ) :
    ∃ o' w', v.renderLines done count number o w =
        (done.reverse ++ (List.range' number count).map (c.record o.scanned), o', w') ∧
      o'.Agrees c (shown ++ List.range' number count) ∧ o'.scanned = o.scanned ∧
      o'.levels.size = o.levels.size := by
  induction count generalizing done number o shown w with
  | zero =>
    rw [List.range'_zero, List.map_nil, List.append_nil, List.append_nil]
    exact ⟨o, w, rfl, ho, rfl, rfl⟩
  | succ count ih =>
    have hnumber := hlines number (Nat.le_refl number) (by omega)
    obtain ⟨o₁, w₁, hline, ho₁, hscanned, hsize⟩ := renderLine_eq hv hd ho hnumber w
    have hrest : ∀ k, number + 1 ≤ k → k < number + 1 + count → k < o₁.levels.size := by
      intro k hle hlt
      rw [hsize]
      exact hlines k (by omega) (by omega)
    obtain ⟨o', w', hrender, ho', hscanned', hsize'⟩ :=
      ih ho₁ (c.record o.scanned number :: done) hrest w₁
    rw [hscanned, List.reverse_cons, List.append_assoc] at hrender
    rw [List.append_assoc] at ho'
    have hkind : ∀ e, (c.record o.scanned number).kind ≠ .failed e := by
      have hroot : o.levels.size = (c.levels o.scanned).size := congrArg Level.stop ho.root_eq
      exact (c.record_number (hroot ▸ hnumber)).2
    refine ⟨o', w', ?_, ho', hscanned'.trans hscanned, hsize'.trans hsize⟩
    rw [renderLines, hline]
    dsimp only
    split
    · rename_i e he
      exact absurd he (hkind e)
    · exact hrender

theorem renderWindow_eq (hv : v.IsOf c) (hd : c.decoding.Regular) (ho : o.Agrees c shown)
    (start count : Nat) (w : σ) :
    ∃ o' w', v.renderWindow start count o w = (c.window o.scanned start count, o', w') ∧
      o'.Agrees c (shown ++ List.range' start (min (start + count) o.levels.size - start)) ∧
      o'.scanned = o.scanned ∧ o'.levels.size = o.levels.size := by
  have hroot : o.levels.size = (c.levels o.scanned).size := congrArg Level.stop ho.root_eq
  have hlines : ∀ k, start ≤ k → k < start + (min (start + count) o.levels.size - start) →
      k < o.levels.size := by
    intro k hle hlt
    omega
  obtain ⟨o', w', hrender, ho', hscanned, hsize⟩ := renderLines_eq hv hd ho [] hlines w
  rw [List.reverse_nil, List.nil_append] at hrender
  refine ⟨{ o' with window := some { start, count, lines := c.window o.scanned start count } },
    w', ?_, ?_, hscanned, hsize⟩
  · rw [renderWindow]
    dsimp only
    rw [hrender, hv.config_eq, Scene.window, ← hroot]
  · refine ho'.with_window (fun u hu => ?_) fun u hu k hle hlt hk => ?_
    · cases hu
      rw [hscanned]
    · cases hu
      refine List.mem_append_right shown (List.mem_range'_1.2 ⟨hle, ?_⟩)
      rw [hsize] at hk
      dsimp only at hle hlt
      omega

end View
end Disassembly
