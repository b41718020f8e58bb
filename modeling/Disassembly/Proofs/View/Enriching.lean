import Disassembly.Proofs.View.Scanning

/-! # Lines and notes

An enriched line is the one that the scene has there, wherever the seeker stands and whatever has
been noted. The notes are what the scene has for the lines that were shown: for a line that was shown
before nothing is looked up again, and nothing has to be.
-/

namespace Disassembly

variable {σ : Type}

theorem Levels.settle_congr {s s' : Levels} (h : s.root = s'.root) (real fuel line : Nat) :
    s.settle real fuel line = s'.settle real fuel line := by
  induction fuel generalizing line with
  | zero => rfl
  | succ fuel ih =>
    have hthrough : s.labelsThrough line = s'.labelsThrough line := by
      rw [labelsThrough, labelsThrough, h]
    rw [settle, settle, hthrough, ih]

theorem Levels.lineOfReal_congr {s s' : Levels} (h : s.root = s'.root) (real : Nat) :
    s.lineOfReal real = s'.lineOfReal real := by
  rw [lineOfReal, lineOfReal, settle_congr h, labelCount, labelCount, h]

theorem Source.readClamped_eq {source : Source σ} {content : Array UInt8}
    (h : source.Serves content noFaults) (offset length : Nat) (w : σ) :
    (source.readClamped offset length w).1 =
      ((Source.ofBytes content : Source Unit).readClamped offset length ()).1 := by
  have hsize : (Source.ofBytes content : Source Unit).size = source.size := h.size_eq.symm
  simp only [readClamped, hsize]
  split
  · rfl
  · exact h.read_of_quiet (.inl (by omega)) rfl rfl

structure Enricher.Sees (x : Enricher σ) (c : Scene) (scanned : Bool) : Prop where
  zone_eq : x.zone = c.zone
  config_eq : x.config = c.config
  env_eq : x.env = c.env
  source : x.source.Serves c.content noFaults
  decoder : x.decoder.Follows c.decoding noFaults
  index_eq : x.index = c.index
  root_eq : x.levels.root = (c.levels scanned).root

namespace Enricher

variable {x : Enricher σ} {c : Scene} {scanned : Bool} {k : Seeker}

theorem targetLine_eq (hx : x.Sees c scanned) (hd : c.decoding.Regular)
    (hz : c.zone.LiesIn c.content) (hk : k.Sound c.zone c.content c.decoding c.config)
    (value : Nat) (w : σ) :
    ∃ k' w', x.targetLine value k w = (c.targetLine scanned value, k', w') ∧
      k'.Sound c.zone c.content c.decoding c.config := by
  rw [targetLine, hx.index_eq]
  cases hcovers : c.index.covers value with
  | false =>
    exact ⟨k, w, by rw [Scene.targetLine, c.lineAt?_eq_none hd.echoes hcovers]; rfl, hk⟩
  | true =>
    obtain ⟨line, hline, -⟩ := c.exists_lineAt?_of_covers hd.echoes hcovers
    obtain ⟨seek, k', w', hseek, hat, hk'⟩ :=
      Scene.byOffset_of_lineAt? hd hz hx.source hx.decoder hk hline w
    refine ⟨k'.restore k.snapshot, w', ?_, ⟨hk'.stop_eq, hk.position⟩⟩
    rw [if_pos rfl, hseek]
    dsimp only
    rw [hat, Levels.lineOfReal_congr hx.root_eq, Scene.targetLine, hline]
    rfl

/-- A preview depends on what can be read, and on nothing else that changes. -/
theorem stringFor?_congr {τ : Type} {y : Enricher τ} (hzone : x.zone = y.zone)
    (hconfig : x.config = y.config) (henv : x.env = y.env) (hsize : x.source.size = y.source.size)
    {w : σ} {v : τ} (hread : ∀ offset length, (x.source.readClamped offset length w).1 =
      (y.source.readClamped offset length v).1) (value : Nat) :
    (x.stringFor? value w).1 = (y.stringFor? value v).1 := by
  have hpoint : x.pointedAt? value = y.pointedAt? value := by
    rw [pointedAt?, pointedAt?, henv, hzone]
  simp only [stringFor?, hpoint, hconfig, hsize]
  cases y.pointedAt? value with
  | none => rfl
  | some offset =>
    dsimp only
    split
    · rfl
    · have hsame := hread offset (y.config.previewLength * 2)
      generalize x.source.readClamped offset (y.config.previewLength * 2) w = left at hsame ⊢
      generalize y.source.readClamped offset (y.config.previewLength * 2) v = right at hsame ⊢
      obtain ⟨bytes, w'⟩ := left
      obtain ⟨bytes', v'⟩ := right
      obtain rfl : bytes = bytes' := hsame
      cases bytes <;> rfl

theorem stringFor?_eq (hx : x.Sees c scanned) (value : Nat) (w : σ) :
    (x.stringFor? value w).1 = c.preview? value :=
  stringFor?_congr hx.zone_eq hx.config_eq hx.env_eq hx.source.size_eq
    (fun offset length => Source.readClamped_eq hx.source offset length w) value

theorem branch_eq (hx : x.Sees c scanned) (hd : c.decoding.Regular)
    (hz : c.zone.LiesIn c.content) (hk : k.Sound c.zone c.content c.decoding c.config)
    (line : Line) (value : Nat) (n : Notes) (w : σ) :
    ∃ n' k' w', x.branch line value n k w = (c.branchLine scanned value line, n', k', w') ∧
      k'.Sound c.zone c.content c.decoding c.config ∧
      (n' = n ∧ c.callee? value = none ∨ ∃ mapping, c.env.symbolFor? value = some mapping ∧
        n' = x.noteCall { line with value := some value } mapping n) := by
  rw [branch, Scene.branchLine, hx.env_eq]
  dsimp only
  cases hsymbol : c.env.symbolFor? value with
  | some mapping => exact ⟨_, k, w, rfl, hk, .inr ⟨mapping, rfl, rfl⟩⟩
  | none =>
    obtain ⟨k', w', htarget, hk'⟩ := targetLine_eq hx hd hz hk value w
    refine ⟨n, k', w', ?_, hk', .inl ⟨rfl, ?_⟩⟩
    · dsimp only
      rw [htarget]
    · rw [Scene.callee?, hsymbol]
      rfl

end Enricher

/-- The notes are what the scene has for the lines that were shown. -/
structure Notes.Records (n : Notes) (c : Scene) (scanned : Bool) (shown : List Nat) : Prop where
  comments : ∀ k, n.comments.get? k = if k ∈ shown then c.comment? scanned k else none
  calls : ∀ k, n.calls.get? k = if k ∈ shown then c.call? scanned k else none
  visited : ∀ k, n.hasVisited k = true → k ∈ shown

namespace Notes.Records

variable {n n' : Notes} {c : Scene} {scanned : Bool} {shown : List Nat} {number : Nat}

theorem empty (c : Scene) (scanned : Bool) : ({} : Notes).Records c scanned [] where
  comments _ := rfl
  calls _ := rfl
  visited _ h := by cases h

theorem comment_eq_none (h : n.Records c scanned shown) (hnone : c.comment? scanned number = none) :
    n.comments.get? number = none := by
  rw [h.comments, hnone]
  split <;> rfl

theorem call_eq_none (h : n.Records c scanned shown) (hnone : c.call? scanned number = none) :
    n.calls.get? number = none := by
  rw [h.calls, hnone]
  split <;> rfl

theorem again (h : n.Records c scanned shown) {more : List Nat} (hmore : ∀ k ∈ more, k ∈ shown) :
    n.Records c scanned (shown ++ more) := by
  have hmem : ∀ k, k ∈ shown ++ more ↔ k ∈ shown := fun k =>
    ⟨fun hk => (List.mem_append.1 hk).elim id (hmore k), List.mem_append_left more⟩
  refine ⟨fun k => ?_, fun k => ?_, fun k hk => (hmem k).2 (h.visited k hk)⟩
  · simp only [h.comments, hmem]
  · simp only [h.calls, hmem]

/-- One more line has been shown, and what there is to note about it has been noted. -/
theorem show_line (h : n.Records c scanned shown)
    (hcomments : ∀ k, n'.comments.get? k =
      if k = number then c.comment? scanned number else n.comments.get? k)
    (hcalls : ∀ k, n'.calls.get? k =
      if k = number then c.call? scanned number else n.calls.get? k)
    (hvisited : ∀ k, n'.hasVisited k = true → k = number ∨ n.hasVisited k = true) :
    n'.Records c scanned (shown ++ [number]) := by
  refine ⟨fun k => ?_, fun k => ?_, fun k hk => ?_⟩
  · rw [hcomments, h.comments]
    by_cases hk : k = number <;> simp [hk]
  · rw [hcalls, h.calls]
    by_cases hk : k = number <;> simp [hk]
  · rcases hvisited k hk with rfl | hk
    · exact List.mem_append_right shown List.mem_cons_self
    · exact List.mem_append_left _ (h.visited k hk)

theorem visit (h : n.Records c scanned shown)
    (hcomments : ∀ k, n'.comments.get? k =
      if k = number then c.comment? scanned number else n.comments.get? k)
    (hcalls : ∀ k, n'.calls.get? k =
      if k = number then c.call? scanned number else n.calls.get? k)
    (hvisited : n'.visited = n.visited) :
    (n'.visit number).Records c scanned (shown ++ [number]) := by
  refine h.show_line hcomments hcalls fun k hk => ?_
  rw [Notes.hasVisited, Notes.visit, NatMap.contains, NatMap.get?_insert] at hk
  by_cases heq : k = number
  · exact .inl heq
  · rw [if_neg heq, hvisited] at hk
    exact .inr hk

end Notes.Records

namespace Enricher

variable {x : Enricher σ} {c : Scene} {scanned : Bool} {k : Seeker} {n : Notes} {shown : List Nat}
  {number : Nat} {i : Instruction}

theorem noteCall_comments (line : Line) (mapping : Mapping) :
    (x.noteCall line mapping n).comments = n.comments := by
  rw [noteCall]
  split
  · split <;> rfl
  · rfl

theorem noteCall_visited (line : Line) (mapping : Mapping) :
    (x.noteCall line mapping n).visited = n.visited := by
  rw [noteCall]
  split
  · split <;> rfl
  · rfl

/-- A call of a mapping is noted, now or when the line was shown first. -/
theorem noteCall_calls (hx : x.Sees c scanned) (hn : n.Records c scanned shown) {line : Line}
    {mapping : Mapping} (hcall : c.call? scanned line.number =
      if line.flow = .call ∧ mapping.kind = .function then c.env.knownFunction? mapping else none)
    (j : Nat) : (x.noteCall line mapping n).calls.get? j =
      if j = line.number then c.call? scanned line.number else n.calls.get? j := by
  rw [noteCall, hx.env_eq]
  split
  · rename_i hfirst
    rw [if_pos ⟨hfirst.1, hfirst.2.1⟩] at hcall
    split
    · rename_i function hfunction
      rw [Notes.addCall, NatMap.get?_insert, hcall, hfunction]
    · rename_i hfunction
      rw [hfunction] at hcall
      exact NatMap.get?_eq_ite ((hn.call_eq_none hcall).trans hcall.symm) j
  · rename_i hnot
    refine NatMap.get?_eq_ite ?_ j
    by_cases hfunction : line.flow = .call ∧ mapping.kind = .function
    · -- the line was shown before
      have hvisited : n.hasVisited line.number = true := by
        refine Decidable.byContradiction fun hfirst => hnot ⟨hfunction.1, hfunction.2, hfirst⟩
      rw [hn.calls, if_pos (hn.visited _ hvisited)]
    · rw [if_neg hfunction] at hcall
      rw [hcall, hn.call_eq_none hcall]

theorem push_calls (value : Nat) (w : σ) :
    (x.push number value n w).1.calls = n.calls ∧
      (x.push number value n w).1.visited = n.visited := by
  rw [push]
  split
  · exact ⟨rfl, rfl⟩
  · split <;> exact ⟨rfl, rfl⟩

theorem push_comments (hx : x.Sees c scanned) (hn : n.Records c scanned shown) {value : Nat}
    (hcomment : c.comment? scanned number = c.preview? value) (w : σ) (j : Nat) :
    (x.push number value n w).1.comments.get? j =
      if j = number then c.comment? scanned number else n.comments.get? j := by
  have hstring := stringFor?_eq hx value w
  rw [push]
  split
  · rename_i hknown
    refine NatMap.get?_eq_ite ?_ j
    have hshown : number ∈ shown := by
      rcases Bool.or_eq_true_iff.1 hknown with hvisited | hcontains
      · exact hn.visited number hvisited
      · refine Decidable.byContradiction fun hnew => ?_
        rw [NatMap.contains, hn.comments, if_neg hnew] at hcontains
        cases hcontains
    rw [hn.comments, if_pos hshown]
  · split
    · rename_i text w' hfound
      rw [hfound] at hstring
      rw [Notes.addComment, NatMap.get?_insert, hcomment, ← hstring]
    · rename_i w' hfound
      rw [hfound] at hstring
      have hnone : c.comment? scanned number = none := hcomment.trans hstring.symm
      exact NatMap.get?_eq_ite ((hn.comment_eq_none hnone).trans hnone.symm) j

theorem comment?_of_instruction (hi : c.instructionOn? scanned number = some i) :
    c.comment? scanned number = c.commentOn? i := by
  rw [Scene.comment?, hi, Option.bind_some]

theorem call?_of_instruction (hi : c.instructionOn? scanned number = some i) :
    c.call? scanned number = c.callOn? i := by
  rw [Scene.call?, hi, Option.bind_some]

/-- A line that is not a push of a literal has no comment, before and after it is shown. -/
theorem comments_of_no_push (hn : n.Records c scanned shown)
    (hi : c.instructionOn? scanned number = some i)
    (hnot : i.flow ≠ .push ∨ i.literal? c.zone.arch = none) (j : Nat) :
    n.comments.get? j = if j = number then c.comment? scanned number else n.comments.get? j := by
  have hnone : c.comment? scanned number = none := by
    rw [comment?_of_instruction hi, Scene.commentOn?]
    rcases hnot with hflow | hliteral
    · rw [if_neg hflow]
    · rw [hliteral]
      split <;> rfl
  exact NatMap.get?_eq_ite ((hn.comment_eq_none hnone).trans hnone.symm) j

theorem calls_of_no_call (hn : n.Records c scanned shown)
    (hi : c.instructionOn? scanned number = some i)
    (hnot : i.flow ≠ .call ∨ (i.literal? c.zone.arch).bind c.callee? = none) (j : Nat) :
    n.calls.get? j = if j = number then c.call? scanned number else n.calls.get? j := by
  have hnone : c.call? scanned number = none := by
    rw [call?_of_instruction hi, Scene.callOn?]
    rcases hnot with hflow | hliteral
    · rw [if_neg hflow]
    · rw [hliteral]
      split <;> rfl
  exact NatMap.get?_eq_ite ((hn.call_eq_none hnone).trans hnone.symm) j

theorem branch_records (hx : x.Sees c scanned) (hd : c.decoding.Regular)
    (hz : c.zone.LiesIn c.content) (hk : k.Sound c.zone c.content c.decoding c.config)
    (hn : n.Records c scanned shown) (hi : c.instructionOn? scanned number = some i)
    (hflow : i.flow = .call ∨ i.flow = .jump) {value : Nat}
    (hliteral : i.literal? c.zone.arch = some value) (w : σ) :
    ∃ n' k' w', x.branch (.ofInstruction number i) value n k w =
        (c.branchLine scanned value (.ofInstruction number i), n', k', w') ∧
      k'.Sound c.zone c.content c.decoding c.config ∧
      (n'.visit number).Records c scanned (shown ++ [number]) := by
  obtain ⟨n', k', w', hline, hk', hnote⟩ :=
    branch_eq hx hd hz hk (.ofInstruction number i) value n w
  have hpush : i.flow ≠ .push := by
    rcases hflow with hflow | hflow <;> rw [hflow] <;> nofun
  refine ⟨n', k', w', hline, hk', ?_⟩
  rcases hnote with ⟨rfl, hcallee⟩ | ⟨mapping, hmapping, rfl⟩
  · refine hn.visit (comments_of_no_push hn hi (.inl hpush)) (calls_of_no_call hn hi (.inr ?_)) rfl
    rw [hliteral, Option.bind_some, hcallee]
  · refine hn.visit (fun j => ?_) (noteCall_calls hx hn ?_) (noteCall_visited _ _)
    · rw [noteCall_comments]
      exact comments_of_no_push hn hi (.inl hpush) j
    · have hfunction : c.call? scanned number =
          if i.flow = .call then
            if mapping.kind = .function then c.env.knownFunction? mapping else none
          else none := by
        rw [call?_of_instruction hi, Scene.callOn?, hliteral, Option.bind_some, Scene.callee?,
          hmapping, Option.bind_some]
      refine hfunction.trans ?_
      by_cases hcall : i.flow = .call <;> by_cases hkind : mapping.kind = .function <;>
        simp [Line.ofInstruction, hcall, hkind]

/-- An instruction is shown as in the scene, and what there is to note about it is noted. -/
theorem enrich_eq (hx : x.Sees c scanned) (hd : c.decoding.Regular) (hz : c.zone.LiesIn c.content)
    (hk : k.Sound c.zone c.content c.decoding c.config) (hn : n.Records c scanned shown)
    (hi : c.instructionOn? scanned number = some i) (w : σ) :
    ∃ n' k' w', x.enrich number i n k w = (c.instructionLine scanned number i, n', k', w') ∧
      k'.Sound c.zone c.content c.decoding c.config ∧
      n'.Records c scanned (shown ++ [number]) := by
  have hflow' : (Line.ofInstruction number i).flow = i.flow := rfl
  rw [enrich, Scene.instructionLine, hx.zone_eq]
  dsimp only
  rw [hflow']
  -- a line without a literal, or of a plain instruction, is only marked as looked at
  cases hliteral : i.literal? c.zone.arch with
  | none =>
    have hnotes := hn.visit (comments_of_no_push hn hi (.inr hliteral))
      (calls_of_no_call hn hi (.inr (by rw [hliteral, Option.bind_none]))) rfl
    cases i.flow <;> exact ⟨_, k, w, rfl, hk, hnotes⟩
  | some value =>
    cases hflow : i.flow with
    | plain =>
      have hnotes := hn.visit (comments_of_no_push hn hi (.inl (by rw [hflow]; nofun)))
        (calls_of_no_call hn hi (.inl (by rw [hflow]; nofun))) rfl
      exact ⟨_, k, w, rfl, hk, hnotes⟩
    | call =>
      obtain ⟨n', k', w', hbranch, hk', hnotes⟩ :=
        branch_records hx hd hz hk hn hi (.inl hflow) hliteral w
      refine ⟨_, k', w', ?_, hk', hnotes⟩
      dsimp only
      rw [hbranch]
    | jump =>
      obtain ⟨n', k', w', hbranch, hk', hnotes⟩ :=
        branch_records hx hd hz hk hn hi (.inr hflow) hliteral w
      refine ⟨_, k', w', ?_, hk', hnotes⟩
      dsimp only
      rw [hbranch]
    | push =>
      have hcomment : c.comment? scanned number = c.preview? value := by
        rw [comment?_of_instruction hi, Scene.commentOn?, hflow, if_pos rfl, hliteral,
          Option.bind_some]
      obtain ⟨hcalls, hvisited⟩ := @push_calls σ x n number value w
      refine ⟨_, k, (x.push number value n w).2, rfl, hk,
        hn.visit (push_comments hx hn hcomment w) (fun j => ?_) hvisited⟩
      rw [hcalls]
      exact calls_of_no_call hn hi (.inl (by rw [hflow]; nofun)) j

end Enricher
end Disassembly
