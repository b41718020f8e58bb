import Disassembly.Proofs.Levels.Resolving

/-! # Levels are a flat list of lines

Whatever is asked of the levels of a zone, in whatever order: they stand for a flat list, which
begins with the instructions, into which labels are inserted, and which nothing else changes.
-/

namespace Disassembly
namespace Levels

variable {s : Levels} {line : Nat}

theorem start_sound (n : Nat) : (start n).Sound where
  start_eq := rfl
  nested := Level.empty_nested 0 n
  distinct := List.Pairwise.nil
  running := nofun

theorem insert_of_lt (label : Label) (h : s.size < line) :
    s.insert line label = .error (s.outOfRange line) := by
  rw [insert, if_pos h]

theorem le_size_of_insert {s' : Levels} {label : Label} (h : s.insert line label = .ok s') :
    line ≤ s.size :=
  Nat.le_of_not_lt fun hlt => by
    rw [insert_of_lt label hlt] at h
    cases h

theorem insert_congr {s' : Levels} (h : s.root = s'.root) (line : Nat) (label : Label) :
    s.insert line label = s'.insert line label := by
  cases s
  cases s'
  cases h
  rfl

theorem insert_of_le (hs : s.Sound) (label : Label) (h : line ≤ s.size) :
    s.insert line label =
      .ok { root := { s.root.insert line label with stop := s.root.stop + 1 } } := by
  rw [insert, if_neg (Nat.not_lt.2 h)]
  dsimp only
  split
  · rename_i hlast
    have hstop : (s.root.insert line label).stop = s.root.stop := by
      have hbounds := congrArg Prod.snd (@Level.insert_bounds line label s.root)
      refine hbounds.trans ((Level.shift_stop line s.root).trans ?_)
      rw [Level.shiftBound, if_neg (by rw [hlast]; exact Nat.lt_irrefl _)]
    rw [hstop]
  · rename_i hinside
    have hcontains : s.root.contains line = true := by
      rw [Level.contains_iff, hs.start_eq]
      exact ⟨Nat.zero_le line, Nat.lt_of_le_of_ne h hinside⟩
    rw [Level.mk_eq_of_stop_eq (Level.insert_stop hcontains)]

theorem contents_with_stop (l : Level) (stop : Nat) :
    ({ l with stop } : Level).contents = l.contents := by
  cases l
  rfl

/-- Putting a label in is inserting it into the lines. -/
theorem Sound.insert (hs : s.Sound) {label : Label} {s' : Levels}
    (hinsert : s.insert line label = .ok s') :
    s'.Sound ∧ s'.size = s.size + 1 ∧ s'.lines = s.lines.insertIdx line (.label label) ∧
      s'.labelCount = s.labelCount + 1 := by
  have h := le_size_of_insert hinsert
  rw [insert_of_le hs label h] at hinsert
  obtain rfl := Except.ok.inj hinsert
  have hstart : s.root.start ≤ line := by
    rw [hs.start_eq]
    exact Nat.zero_le line
  have hperm := (Level.contents_insert line label s.root).symm
  have hdistinct := hs.distinct.insert_shift line label
  refine ⟨⟨?_, hs.nested.insert hstart h, ?_, nofun⟩, rfl, ?_, ?_⟩
  · have hbounds := congrArg Prod.fst (@Level.insert_bounds line label s.root)
    refine hbounds.trans ((Level.shift_start line s.root).trans ?_)
    rw [Level.shiftBound, hs.start_eq, if_neg (Nat.not_lt_zero line)]
  · rw [contents_with_stop]
    exact hdistinct.perm hperm
  · rw [lines, lines, contents_with_stop, layout_perm hdistinct hperm]
    exact layout_insert label s.root.contents h
  · rw [labelCount, labelCount, Level.count_eq, Level.count_eq, contents_with_stop,
      ← hperm.countP_eq, List.countP_cons_of_pos rfl, Level.shiftLabels_eq, List.countP_map]
    rfl

theorem Sound.addLevel (hs : s.Sound) {first last : Nat} {s' : Levels}
    (hadd : s.addLevel first last = .ok s') :
    s'.Sound ∧ s'.size = s.size ∧ s'.lines = s.lines ∧ s'.labelCount = s.labelCount := by
  rw [Levels.addLevel] at hadd
  split at hadd
  · cases hadd
  · rename_i hrange
    cases hnest : s.root.nest? first last true with
    | none =>
      rw [hnest] at hadd
      cases hadd
    | some root =>
      rw [hnest] at hadd
      obtain rfl := Except.ok.inj hadd
      have hspans : s.root.spans first last = true := by
        rw [Level.spans_iff, hs.start_eq]
        exact ⟨Nat.zero_le first, Nat.le_of_not_lt fun hlt => hrange (.inr hlt)⟩
      have hlt : first < last := Nat.lt_of_not_le fun hle => hrange (.inl hle)
      obtain ⟨hnested, hbounds⟩ := hs.nested.nest hlt hspans hnest
      have hperm := (Level.contents_nest first last true s.root root hnest).symm
      have hsize : root.stop = s.root.stop := congrArg Prod.snd hbounds
      refine ⟨⟨(congrArg Prod.fst hbounds).trans hs.start_eq, hnested, hs.distinct.perm hperm,
        nofun⟩, hsize, ?_, ?_⟩
      · rw [lines, lines, layout_perm hs.distinct hperm, size, hsize, size]
      · rw [labelCount, labelCount, Level.count_eq, Level.count_eq, hperm.countP_eq]

inductive Request where
  | insert (line : Nat) (label : Label)
  | addLevel (first last : Nat)
  | resolve (line : Nat)
  | peek (line : Nat)
  | lineOfReal (real : Nat)

/-- The levels after a request; one that is refused leaves them as they are. -/
def perform (s : Levels) : Request → Levels
  | .insert line label =>
    match s.insert line label with
    | .ok s' => s'
    | .error _ => s
  | .addLevel first last =>
    match s.addLevel first last with
    | .ok s' => s'
    | .error _ => s
  | .resolve line => (s.resolve line).2
  | .peek _ | .lineOfReal _ => s

theorem perform_insert {s' : Levels} {label : Label} (h : s.insert line label = .ok s') :
    s.perform (.insert line label) = s' := by
  rw [perform, h]

/-- The flat list after a request: a label goes in where there is a line, or behind the last. -/
def performFlat (flat : List Resolved) : Request → List Resolved
  | .insert line label =>
    if line ≤ flat.length then flat.insertIdx line (.label label) else flat
  | .addLevel _ _ | .resolve _ | .peek _ | .lineOfReal _ => flat

def answer (flat : List Resolved) (line : Nat) : Except Error Resolved :=
  match flat[line]? with
  | some entry => .ok entry
  | none => .error { failure := .lineOutOfRange line flat.length }

/-- The levels of a zone of `n` instructions stand for a flat list. -/
structure Models (s : Levels) (n : Nat) (flat : List Resolved) : Prop where
  sound : s.Sound
  lines_eq : s.lines = flat
  size_eq : s.size = n + s.labelCount
  code : flat.filterMap Resolved.code? = List.range n

/-- What the levels answer is what the flat list has. -/
structure AnswersFlat (s : Levels) (n : Nat) (flat : List Resolved) : Prop where
  size_eq : s.size = flat.length
  length_eq : flat.length = n + s.labelCount
  resolve_eq : ∀ line, (s.resolve line).1 = answer flat line
  peek_eq : ∀ line, s.peek line = answer flat line
  instruction_eq : ∀ line r, flat[line]? = some (.instruction r) →
    r = ((flat.take line).filterMap Resolved.code?).length
  insert_ok : ∀ line label, line ≤ flat.length →
    s.insert line label = .ok (s.perform (.insert line label))
  insert_error : ∀ line label, flat.length < line →
    s.insert line label = .error { failure := .lineOutOfRange line flat.length }
  noUnderflow : ∀ line, line < s.size → s.NoUnderflow line
  /-- What is kept about the last line leads to a level. -/
  path_leads : ∃ level, s.root.descend s.path = some level

variable {n : Nat} {flat : List Resolved}

theorem start_models (n : Nat) : (start n).Models n ((List.range n).map .instruction) where
  sound := start_sound n
  lines_eq := layout_nil n
  size_eq := rfl
  code := by rw [List.filterMap_map]; exact List.filterMap_some

theorem Models.length_eq (h : s.Models n flat) : flat.length = s.size := by
  rw [← h.lines_eq, lines, length_layout]

/-- Each request does to the levels what it does to the flat list. -/
theorem Models.perform (h : s.Models n flat) (request : Request) :
    (s.perform request).Models n (performFlat flat request) := by
  cases request with
  | insert line label =>
    rw [Levels.perform, performFlat, h.length_eq]
    split
    · rename_i s' hinsert
      obtain ⟨hsound, hsize, hlines, hcount⟩ := h.sound.insert hinsert
      rw [if_pos (le_size_of_insert hinsert)]
      refine ⟨hsound, by rw [hlines, h.lines_eq], ?_, ?_⟩
      · rw [hsize, h.size_eq, hcount, Nat.add_assoc]
      · rw [filterMap_code?_insertIdx, h.code]
    · rename_i e hinsert
      rw [if_neg]
      · exact h
      · intro hle
        rw [insert_of_le h.sound label hle] at hinsert
        cases hinsert
  | addLevel first last =>
    rw [Levels.perform, performFlat]
    split
    · rename_i s' hadd
      obtain ⟨hsound, hsize, hlines, hcount⟩ := h.sound.addLevel hadd
      exact ⟨hsound, hlines.trans h.lines_eq, by rw [hsize, hcount, h.size_eq], h.code⟩
    · exact h
  | resolve line =>
    -- only the running counts change, and the lines do not depend on those
    by_cases hline : line < s.size
    · have hroot := s.resolve_root line
      refine ⟨(h.sound.resolve hline).2, ?_, ?_, h.code⟩
      · rw [performFlat, ← h.lines_eq, lines, lines, Levels.perform, size, size, hroot]
      · rw [Levels.perform, size, labelCount, hroot]
        exact h.size_eq
    · rw [Levels.perform, resolve, if_pos (Nat.le_of_not_lt hline)]
      exact h
  | peek | lineOfReal => exact h

theorem Models.run (h : s.Models n flat) (requests : List Request) :
    (requests.foldl Levels.perform s).Models n (requests.foldl performFlat flat) := by
  induction requests generalizing s flat with
  | nil => exact h
  | cons request requests ih => exact ih (h.perform request)

theorem Models.insert (h : s.Models n flat) (label : Label) (hline : line ≤ s.size) :
    s.insert line label = .ok (s.perform (.insert line label)) ∧
      (s.perform (.insert line label)).labelCount = s.labelCount + 1 := by
  have hinsert := insert_of_le h.sound label hline
  have hperform : s.insert line label = .ok (s.perform (.insert line label)) := by
    rw [perform_insert hinsert, hinsert]
  exact ⟨hperform, (h.sound.insert hperform).2.2.2⟩

theorem Models.answer_eq (h : s.Models n flat) (hline : line < s.size) :
    answer flat line = .ok (entryOf s.root.contents line) := by
  rw [answer, ← h.lines_eq, lines, getElem?_layout hline]

theorem Models.lt_of_entry (h : s.Models n flat) (hline : line < s.size) {real : Nat}
    (hentry : entryOf s.root.contents line = .instruction real) : real < n := by
  have hget : flat[line]? = some (.instruction real) := by
    rw [← h.lines_eq, lines, getElem?_layout hline]
    exact congrArg some hentry
  have hmem : real ∈ flat.filterMap Resolved.code? :=
    List.mem_filterMap.2 ⟨.instruction real, List.mem_of_getElem? hget, rfl⟩
  rw [h.code] at hmem
  exact List.mem_range.1 hmem

theorem Models.answersFlat (h : s.Models n flat) : s.AnswersFlat n flat where
  size_eq := h.length_eq.symm
  length_eq := h.length_eq.trans h.size_eq
  resolve_eq line := by
    by_cases hline : line < s.size
    · rw [h.answer_eq hline, (h.sound.resolve hline).1]
    · have hle := Nat.le_of_not_lt hline
      rw [resolve, if_pos hle, answer, List.getElem?_eq_none (by rwa [h.length_eq]), h.length_eq,
        outOfRange]
  peek_eq line := by
    by_cases hline : line < s.size
    · rw [h.answer_eq hline, h.sound.peek hline]
    · have hle := Nat.le_of_not_lt hline
      rw [peek, if_pos hle, answer, List.getElem?_eq_none (by rwa [h.length_eq]), h.length_eq,
        outOfRange]
  instruction_eq line r hline := eq_length_of_filterMap_code? h.code hline
  insert_ok line label hline := (h.insert label (by rwa [← h.length_eq])).1
  insert_error line label hline := by
    rw [insert_of_lt label (by rwa [← h.length_eq]), h.length_eq, outOfRange]
  noUnderflow line hline := h.sound.noUnderflow hline
  path_leads := h.sound.path_leads

/-- After any requests the levels of a zone answer as the flat list does to which the same requests
were made. -/
theorem run_answersFlat (n : Nat) (requests : List Request) :
    (requests.foldl perform (start n)).AnswersFlat n
      (requests.foldl performFlat ((List.range n).map .instruction)) :=
  ((start_models n).run requests).answersFlat

end Levels
end Disassembly
