import DirectoryAccess.Entry.Ldif

/-! # Folding — how a record may be broken into lines

    A line of a record may be continued behind a line feed and a blank.  Reading puts a
    continuation behind the line that it has taken in last, and takes in no comments; so
    what stands behind the fold of a comment is read as the end of the attribute line in
    front of the comment, or refused if there is none.  Folding attribute lines changes
    nothing, wherever comments and empty lines stand between them. -/

namespace DirectoryAccess

namespace Ldif

/-- Take in one line behind those that have been taken in, nearest first. -/
def takeIn (taken : List (List Char)) (line : List Char) :
    Except OperationError (List (List Char)) :=
  match line with
  | '#' :: _ => .ok taken
  | ' ' :: more =>
      match taken with
      | last :: front => .ok ((last ++ more) :: front)
      | [] => .error (.invalidAttribute (String.ofList line))
  | _ => if (Text.trimChars line).isEmpty then .ok taken else .ok (line :: taken)

/-- Lines are taken in one after the other. -/
theorem unfold_cons (taken : List (List Char)) (line : List Char) (rest : List (List Char)) :
    unfold taken (line :: rest) = takeIn taken line >>= fun taken => unfold taken rest := by
  by_cases hcomment : ∃ cs, line = '#' :: cs
  · obtain ⟨cs, rfl⟩ := hcomment
    rfl
  · by_cases hmore : ∃ cs, line = ' ' :: cs
    · obtain ⟨cs, rfl⟩ := hmore
      cases taken <;> rfl
    · have hcomment : ∀ cs, line = '#' :: cs → False := fun cs h => hcomment ⟨cs, h⟩
      have hmore : ∀ cs, line = ' ' :: cs → False := fun cs h => hmore ⟨cs, h⟩
      rw [takeIn, Ldif.unfold]
      · split <;> rfl
      · exact hcomment
      · exact hmore
      · exact hcomment
      · exact hmore

/-- Unfolding takes the lines in one after the other. -/
theorem unfold_eq (taken ls : List (List Char)) :
    unfold taken ls = (ls.foldlM takeIn taken).map List.reverse := by
  induction ls generalizing taken with
  | nil => rfl
  | cons line rest ih =>
      rw [unfold_cons, List.foldlM_cons]
      cases takeIn taken line with
      | error e => rfl
      | ok taken => exact ih taken

/-- A line that starts with neither a hash nor a blank is taken in. -/
theorem takeIn_line {c : Char} {cs : List Char} (hcomment : c ≠ '#')
    (hblank : Text.isBlank c = false) (taken : List (List Char)) :
    takeIn taken (c :: cs) = .ok ((c :: cs) :: taken) := by
  have hmore : c ≠ ' ' := by
    rintro rfl
    cases hblank
  obtain ⟨rest, hrest⟩ := Text.trimEndChars_cons cs hblank
  rw [takeIn, Text.trimChars, Text.trimStartChars_cons hblank, hrest]
  · rfl
  · intro tail h
    exact hcomment (List.cons.inj h).1
  · intro more h
    exact hmore (List.cons.inj h).1

-- ── Lines ────────────────────────────────────────────────────────────────────────

/-- What has no line end goes on the line being read. -/
theorem go_append {p : List Char} (h : '\n' ∉ p) (line rest : List Char) :
    lines.go line (p ++ rest) = lines.go (p.reverse ++ line) rest := by
  induction p generalizing line with
  | nil => rfl
  | cons c cs ih =>
      rw [List.mem_cons, not_or] at h
      rw [List.cons_append, lines.go, ih h.2]
      · simp
      · exact fun hc => h.1 hc.symm

/-- A line end finishes the line, unless a carriage return stands in front. -/
theorem go_feed {line : List Char} (h : '\r' ∉ line) (rest : List Char) :
    lines.go line ('\n' :: rest) = line.reverse :: lines rest := by
  rw [lines.go, lines]
  · intro front hline
    exact h (hline ▸ List.mem_cons_self ..)

/-- Reading lines one after the other sees them as they are between the line feeds, but for
    an empty one at the end. -/
theorem unfold_lines {ps : List (List Char)} (h : ∀ p ∈ ps, '\n' ∉ p ∧ '\r' ∉ p)
    (taken : List (List Char)) :
    unfold taken (lines (['\n'].intercalate ps)) = unfold taken ps := by
  induction ps generalizing taken with
  | nil => rfl
  | cons p rest ih =>
      obtain ⟨⟨hfeed, hreturn⟩, hrest⟩ := List.forall_mem_cons.mp h
      cases rest with
      | nil =>
          have hp : lines p = if p.reverse.isEmpty then [] else [p] := by
            have hgo := go_append hfeed [] []
            rw [List.append_nil, List.append_nil] at hgo
            rw [lines, hgo, lines.go, List.reverse_reverse]
          rw [List.intercalate_singleton, hp]
          split
          · next hempty =>
            rw [List.isEmpty_iff, List.reverse_eq_nil_iff] at hempty
            rw [hempty]
            rfl
          · rfl
      | cons q qs =>
          have hp : lines (['\n'].intercalate (p :: q :: qs))
              = p :: lines (['\n'].intercalate (q :: qs)) := by
            rw [List.intercalate_cons_cons, List.append_assoc, lines, go_append hfeed,
              List.append_nil, List.singleton_append]
            have hr : '\r' ∉ p.reverse := fun hc => hreturn (List.mem_reverse.mp hc)
            exact (go_feed hr _).trans (by rw [List.reverse_reverse])
          rw [hp, unfold_cons, unfold_cons]
          cases takeIn taken p with
          | error e => rfl
          | ok taken => exact ih hrest taken

end Ldif

-- ── Folding ──────────────────────────────────────────────────────────────────────

/-- A line of a record as it is folded: what stands in front of the first fold, and what
    stands behind each.  It is empty and not folded, or starts with no blank. -/
structure FoldedLine where
  first : List Char
  more : List (List Char)
  first_single : '\n' ∉ first ∧ '\r' ∉ first
  more_single : ∀ part ∈ more, '\n' ∉ part ∧ '\r' ∉ part
  first_starts : first.head?.any Text.isBlank = false
  empty_unfolded : first = [] → more = []

namespace FoldedLine

/-- The lines that it takes up, with a blank behind each fold. -/
def physical (l : FoldedLine) : List (List Char) := l.first :: l.more.map (' ' :: ·)

/-- The line without its folds. -/
def flat (l : FoldedLine) : FoldedLine where
  first := l.first ++ l.more.flatten
  more := []
  first_single := by
    simp only [List.mem_append, List.mem_flatten, not_or, not_exists, not_and]
    exact ⟨⟨l.first_single.1, fun p hp => (l.more_single p hp).1⟩,
      l.first_single.2, fun p hp => (l.more_single p hp).2⟩
  more_single := nofun
  first_starts := by
    have hstarts := l.first_starts
    cases hfirst : l.first with
    | nil =>
        rw [l.empty_unfolded hfirst]
        rfl
    | cons c cs =>
        rw [hfirst] at hstarts
        exact hstarts
  empty_unfolded := fun _ => rfl

/-- True for a line that starts with a hash. -/
def isComment (l : FoldedLine) : Bool := l.first.head? == some '#'

/-- True for a line that is neither empty nor a comment. -/
def isAttribute (l : FoldedLine) : Bool := l.first.head?.any (· != '#')

/-- What stands behind the folds of a comment. -/
def stray (l : FoldedLine) : List Char := if l.isComment then l.more.flatten else []

end FoldedLine

/-- The text of a record. -/
def recordText (ls : List FoldedLine) : String :=
  String.ofList (['\n'].intercalate (ls.flatMap FoldedLine.physical))

namespace FoldedLine

theorem physical_single (l : FoldedLine) : ∀ p ∈ l.physical, '\n' ∉ p ∧ '\r' ∉ p := by
  intro p hp
  rcases List.mem_cons.mp hp with rfl | hp
  · exact l.first_single
  · obtain ⟨part, hpart, rfl⟩ := List.mem_map.mp hp
    simpa using l.more_single part hpart

/-- Take in the lines that a folded line takes up. -/
def read (taken : List (List Char)) (l : FoldedLine) : Except OperationError (List (List Char)) :=
  l.physical.foldlM Ldif.takeIn taken

/-- The lines of a record are taken in one folded line after the other. -/
theorem unfold_recordText (ls : List FoldedLine) :
    Ldif.unfold [] (Ldif.lines (recordText ls).toList)
      = (ls.foldlM read []).map List.reverse := by
  have hrun : ∀ taken, (ls.flatMap physical).foldlM Ldif.takeIn taken = ls.foldlM read taken := by
    induction ls with
    | nil => exact fun _ => rfl
    | cons l rest ih =>
        intro taken
        rw [List.flatMap_cons, List.foldlM_append, List.foldlM_cons]
        exact congrArg (l.read taken >>= ·) (funext ih)
  rw [recordText, String.toList_ofList, Ldif.unfold_lines, Ldif.unfold_eq, hrun]
  intro p hp
  obtain ⟨l, -, hl⟩ := List.mem_flatMap.mp hp
  exact l.physical_single p hl

-- ── Which texts are records ──────────────────────────────────────────────────────

/-- What stands between line ends has none. -/
theorem single_of_mem_splitOn {cs p : List Char} (hreturn : '\r' ∉ cs)
    (hp : p ∈ cs.splitOn '\n') : '\n' ∉ p ∧ '\r' ∉ p := by
  induction cs generalizing p with
  | nil =>
      rw [List.splitOn_nil, List.mem_singleton] at hp
      rw [hp]
      exact ⟨List.not_mem_nil, List.not_mem_nil⟩
  | cons c rest ih =>
      rw [List.mem_cons, not_or] at hreturn
      have hrest : ∀ {q}, q ∈ rest.splitOn '\n' → '\n' ∉ q ∧ '\r' ∉ q := ih hreturn.2
      rw [List.splitOn_cons_eq_if_modifyHead] at hp
      split at hp
      · rcases List.mem_cons.mp hp with rfl | hp
        · exact ⟨List.not_mem_nil, List.not_mem_nil⟩
        · exact hrest hp
      · next hfeed =>
        obtain ⟨q, qs, hsplit⟩ := List.exists_cons_of_ne_nil (List.splitOn_ne_nil '\n' rest)
        rw [hsplit] at hp hrest
        rcases List.mem_cons.mp hp with rfl | hp
        · obtain ⟨hnot, hnot'⟩ := hrest (List.mem_cons_self ..)
          rw [List.mem_cons, List.mem_cons, not_or, not_or]
          exact ⟨⟨fun h => hfeed (beq_iff_eq.mpr h.symm), hnot⟩, hreturn.1, hnot'⟩
        · exact hrest (List.mem_cons_of_mem _ hp)

/-- Every text without carriage returns of which no line starts with a blank is that of a
    record without folds. -/
theorem exists_record {cs : List Char} (hreturn : '\r' ∉ cs)
    (hstarts : ∀ p ∈ cs.splitOn '\n', p.head?.any Text.isBlank = false) :
    ∃ ls, recordText ls = String.ofList cs ∧ ∀ l ∈ ls, l.more = [] := by
  have hlines : ∀ ps : List (List Char), (∀ p ∈ ps, p ∈ cs.splitOn '\n') →
      ∃ ls : List FoldedLine, ls.flatMap physical = ps ∧ ∀ l ∈ ls, l.more = [] := by
    intro ps
    induction ps with
    | nil => exact fun _ => ⟨[], rfl, nofun⟩
    | cons p rest ih =>
        intro hps
        obtain ⟨hp, hrest⟩ := List.forall_mem_cons.mp hps
        obtain ⟨ls, hls, hmore⟩ := ih hrest
        let line : FoldedLine :=
          ⟨p, [], single_of_mem_splitOn hreturn hp, nofun, hstarts p hp, fun _ => rfl⟩
        refine ⟨line :: ls, ?_, List.forall_mem_cons.mpr ⟨rfl, hmore⟩⟩
        rw [List.flatMap_cons, hls]
        rfl
  obtain ⟨ls, hls, hmore⟩ := hlines (cs.splitOn '\n') fun _ => id
  refine ⟨ls, ?_, hmore⟩
  rw [recordText, hls, List.intercalate_splitOn]

-- ── What becomes of one line ─────────────────────────────────────────────────────

/-- Continuations are put behind the line that was taken in last. -/
theorem takeIn_continuations (last : List Char) (front more : List (List Char)) :
    (more.map (' ' :: ·)).foldlM Ldif.takeIn (last :: front)
      = .ok ((last ++ more.flatten) :: front) := by
  induction more generalizing last with
  | nil => simp [pure, Except.pure]
  | cons part rest ih =>
      rw [List.map_cons, List.foldlM_cons, List.flatten_cons, ← List.append_assoc]
      exact ih (last ++ part)

/-- An empty line is left out. -/
theorem read_empty {l : FoldedLine} (h : l.first = []) (taken : List (List Char)) :
    read taken l = .ok taken := by
  rw [read, physical, h, l.empty_unfolded h]
  rfl

theorem isComment_iff (l : FoldedLine) : l.isComment = true ↔ ∃ cs, l.first = '#' :: cs := by
  rw [isComment, beq_iff_eq, List.head?_eq_some_iff]

/-- An attribute line starts with neither a number sign nor a blank. -/
theorem exists_of_isAttribute {l : FoldedLine} (h : l.isAttribute = true) :
    ∃ c cs, l.first = c :: cs ∧ c ≠ '#' ∧ Text.isBlank c = false := by
  have hstarts := l.first_starts
  rw [isAttribute] at h
  cases hfirst : l.first with
  | nil =>
      rw [hfirst] at h
      cases h
  | cons c cs =>
      rw [hfirst] at h hstarts
      exact ⟨c, cs, rfl, bne_iff_ne.mp h, hstarts⟩

/-- A line is empty, a comment or an attribute line. -/
theorem empty_of_neither {l : FoldedLine} (hcomment : l.isComment = false)
    (hattribute : l.isAttribute = false) : l.first = [] := by
  rw [isComment] at hcomment
  rw [isAttribute] at hattribute
  cases hfirst : l.first with
  | nil => rfl
  | cons c cs =>
      rw [hfirst] at hcomment hattribute
      simp only [List.head?_cons, Option.any_some, bne_eq_false_iff_eq] at hattribute
      rw [hattribute] at hcomment
      cases hcomment

/-- An attribute line is taken in without its folds. -/
theorem read_attribute {l : FoldedLine} (h : l.isAttribute = true) (taken : List (List Char)) :
    read taken l = .ok (l.flat.first :: taken) := by
  obtain ⟨c, cs, hfirst, hcomment, hblank⟩ := exists_of_isAttribute h
  rw [read, physical, hfirst, List.foldlM_cons, Ldif.takeIn_line hcomment hblank, ← hfirst]
  exact takeIn_continuations l.first taken l.more

/-- A comment is left out, but what stands behind its folds is put behind the line that was
    taken in last. -/
theorem read_comment {l : FoldedLine} (h : l.isComment = true) (last : List Char)
    (front : List (List Char)) :
    read (last :: front) l = .ok ((last ++ l.stray) :: front) := by
  obtain ⟨cs, hfirst⟩ := (isComment_iff l).mp h
  rw [read, physical, hfirst, List.foldlM_cons, stray, if_pos h]
  exact takeIn_continuations last front l.more

/-- A comment that is not folded is left out. -/
theorem read_comment_flat {l : FoldedLine} (h : l.isComment = true) (hmore : l.more = [])
    (taken : List (List Char)) : read taken l = .ok taken := by
  obtain ⟨cs, hfirst⟩ := (isComment_iff l).mp h
  rw [read, physical, hfirst, hmore]
  rfl

/-- A folded comment is refused where no line has been taken in. -/
theorem read_comment_refused {l : FoldedLine} (h : l.isComment = true) (hmore : l.more ≠ []) :
    ∃ e, read [] l = .error e := by
  obtain ⟨cs, hfirst⟩ := (isComment_iff l).mp h
  obtain ⟨part, rest, hparts⟩ := List.exists_cons_of_ne_nil hmore
  refine ⟨.invalidAttribute (String.ofList (' ' :: part)), ?_⟩
  rw [read, physical, hfirst, hparts]
  rfl

-- ── What becomes of a record ─────────────────────────────────────────────────────

/-- True if in front of every folded comment there is an attribute line, `seen` telling
    whether there was one before. -/
def placed (seen : Bool) : List FoldedLine → Bool
  | [] => true
  | l :: rest => (!l.isComment || l.more.isEmpty || seen) && placed (seen || l.isAttribute) rest

/-- True if no fold of a comment shows: in front of the comment there is an attribute line,
    and nothing of the comment stands behind the fold. -/
def harmless (ls : List FoldedLine) : Bool := placed false ls && ls.all fun l => l.stray.isEmpty

/-- What is taken in of a line that is not folded. -/
def kept (l : FoldedLine) : List Char :=
  if l.isAttribute then l.first ++ l.more.flatten else []

theorem head_flat (l : FoldedLine) : l.flat.first.head? = l.first.head? := by
  show (l.first ++ l.more.flatten).head? = _
  cases hfirst : l.first with
  | nil =>
      rw [l.empty_unfolded hfirst]
      rfl
  | cons c cs => rfl

theorem isComment_flat (l : FoldedLine) : l.flat.isComment = l.isComment := by
  rw [isComment, isComment, head_flat]

theorem isAttribute_flat (l : FoldedLine) : l.flat.isAttribute = l.isAttribute := by
  rw [isAttribute, isAttribute, head_flat]

theorem stray_flat (l : FoldedLine) : l.flat.stray = [] := by
  rw [stray]
  split <;> rfl

theorem kept_flat (l : FoldedLine) : l.flat.kept = l.kept := by
  rw [kept, kept, isAttribute_flat]
  show (if l.isAttribute then l.first ++ l.more.flatten ++ [] else []) = _
  rw [List.append_nil]

theorem placed_flat (seen : Bool) (ls : List FoldedLine) : placed seen (ls.map flat) = true := by
  induction ls generalizing seen with
  | nil => rfl
  | cons l rest ih =>
      rw [List.map_cons, placed, ih, Bool.and_true]
      show (!l.flat.isComment || true || seen) = true
      simp

/-- What is taken in of a folded line: all of it if it is an attribute line, and of a comment
    what stands behind its folds. -/
theorem read_ok {l : FoldedLine} {taken : List (List Char)}
    (h : (!l.isComment || l.more.isEmpty || !taken.isEmpty) = true) :
    ∃ taken', read taken l = .ok taken' ∧ (!taken'.isEmpty) = (!taken.isEmpty || l.isAttribute)
      ∧ taken'.flatten.length = taken.flatten.length + l.kept.length + l.stray.length
      ∧ (l.stray = [] → read taken l.flat = .ok taken') := by
  cases hcomment : l.isComment with
  | true =>
      have hattribute : l.isAttribute = false := by
        obtain ⟨cs, hfirst⟩ := (isComment_iff l).mp hcomment
        rw [isAttribute, hfirst]
        rfl
      have hflat : read taken l.flat = .ok taken :=
        read_comment_flat (by rw [isComment_flat, hcomment]) rfl taken
      cases taken with
      | nil =>
          have hmore : l.more = [] := by simpa [hcomment] using h
          refine ⟨[], read_comment_flat hcomment hmore [], ?_, ?_, fun _ => hflat⟩
          · rw [hattribute]
            rfl
          · simp [kept, stray, hattribute, hmore]
      | cons last front =>
          refine ⟨_, read_comment hcomment last front, ?_, ?_, fun hstray => ?_⟩
          · rfl
          · simp [kept, hattribute]
            omega
          · rw [hflat, hstray, List.append_nil]
  | false =>
      have hstray : l.stray = [] := by
        rw [stray, hcomment]
        rfl
      cases hattribute : l.isAttribute with
      | true =>
          have hflat := read_attribute (l := l.flat) (by rw [isAttribute_flat, hattribute]) taken
          refine ⟨_, read_attribute hattribute taken, by simp, ?_, fun _ => ?_⟩
          · rw [hstray, kept, if_pos hattribute]
            show (l.first ++ l.more.flatten ++ taken.flatten).length = _
            rw [List.length_append, Nat.add_comm]
            rfl
          · rw [hflat]
            show Except.ok ((l.first ++ l.more.flatten ++ []) :: taken) = _
            rw [List.append_nil]
            rfl
      | false =>
          have hempty := empty_of_neither hcomment hattribute
          refine ⟨taken, read_empty hempty taken, by simp, ?_, fun _ => read_empty ?_ taken⟩
          · simp [hstray, kept, hattribute]
          · show l.first ++ l.more.flatten = []
            rw [hempty, l.empty_unfolded hempty]
            rfl

/-- What is taken in of a record in which every folded comment stands behind an attribute
    line. -/
theorem run_ok {ls : List FoldedLine} (taken : List (List Char))
    (h : placed (!taken.isEmpty) ls = true) :
    ∃ taken', ls.foldlM read taken = .ok taken'
      ∧ taken'.flatten.length
        = taken.flatten.length + (ls.flatMap kept).length + (ls.flatMap stray).length
      ∧ ((∀ l ∈ ls, l.stray = []) → (ls.map flat).foldlM read taken = .ok taken') := by
  induction ls generalizing taken with
  | nil => exact ⟨taken, rfl, rfl, fun _ => rfl⟩
  | cons l rest ih =>
      obtain ⟨hfirst, hrest⟩ := (Bool.and_eq_true _ _).mp h
      obtain ⟨between, hread, hseen, hsize, hflat⟩ := read_ok hfirst
      rw [← hseen] at hrest
      obtain ⟨taken', hrun, htotal, hflats⟩ := ih between hrest
      refine ⟨taken', ?_, ?_, fun hstray => ?_⟩
      · rw [List.foldlM_cons, hread]
        exact hrun
      · rw [htotal, hsize, List.flatMap_cons, List.flatMap_cons, List.length_append,
          List.length_append]
        omega
      · obtain ⟨hl, hothers⟩ := List.forall_mem_cons.mp hstray
        rw [List.map_cons, List.foldlM_cons, hflat hl]
        exact hflats hothers

/-- A record with a folded comment behind no attribute line is refused. -/
theorem run_refused {ls : List FoldedLine} (taken : List (List Char))
    (h : placed (!taken.isEmpty) ls = false) : ∃ e, ls.foldlM read taken = .error e := by
  induction ls generalizing taken with
  | nil => cases h
  | cons l rest ih =>
      cases hfirst : !l.isComment || l.more.isEmpty || !taken.isEmpty with
      | false =>
          simp only [Bool.or_eq_false_iff, Bool.not_eq_false', List.isEmpty_iff] at hfirst
          obtain ⟨⟨hcomment, hmore⟩, rfl⟩ := hfirst
          obtain ⟨e, he⟩ :=
            read_comment_refused hcomment (mt List.isEmpty_iff.mpr (by simp [hmore]))
          exact ⟨e, by rw [List.foldlM_cons, he]; rfl⟩
      | true =>
          obtain ⟨between, hread, hseen, -⟩ := read_ok hfirst
          rw [placed, hfirst, Bool.true_and, ← hseen] at h
          obtain ⟨e, he⟩ := ih between h
          refine ⟨e, ?_⟩
          rw [List.foldlM_cons, hread]
          exact he

/-- The same lines are taken in with and without the folds exactly if no fold of a comment
    shows. -/
theorem unfold_eq_iff (ls : List FoldedLine) :
    Ldif.unfold [] (Ldif.lines (recordText ls).toList)
        = Ldif.unfold [] (Ldif.lines (recordText (ls.map flat)).toList)
      ↔ harmless ls = true := by
  rw [unfold_recordText, unfold_recordText, harmless, Bool.and_eq_true, List.all_eq_true]
  obtain ⟨plain, hplain, hplainSize, -⟩ := run_ok [] (placed_flat false ls)
  constructor
  · intro h
    rw [hplain] at h
    cases hplaced : placed false ls with
    | false =>
        obtain ⟨e, he⟩ := run_refused [] hplaced
        rw [he] at h
        cases h
    | true =>
        obtain ⟨folded, hfolded, hsize, -⟩ := run_ok [] hplaced
        rw [hfolded] at h
        have hsame : folded = plain := List.reverse_inj.mp (Except.ok.inj h)
        have hkept : (ls.map flat).flatMap kept = ls.flatMap kept := by
          rw [List.flatMap_map]
          exact congrArg (List.flatMap · ls) (funext kept_flat)
        have hstrays : (ls.map flat).flatMap stray = [] := by
          rw [List.flatMap_eq_nil_iff]
          intro l hl
          obtain ⟨l, -, rfl⟩ := List.mem_map.mp hl
          exact l.stray_flat
        rw [hsame, hplainSize, hkept, hstrays, List.length_nil] at hsize
        have hnone : ls.flatMap stray = [] := List.length_eq_zero_iff.mp (by omega)
        exact ⟨rfl, fun l hl => List.isEmpty_iff.mpr (List.flatMap_eq_nil_iff.mp hnone l hl)⟩
  · rintro ⟨hplaced, hstray⟩
    obtain ⟨folded, hfolded, -, hflat⟩ := run_ok [] hplaced
    rw [hfolded, hflat fun l hl => List.isEmpty_iff.mp (hstray l hl)]

/-- Where no comment is folded, no fold of a comment shows. -/
theorem harmless_of_comments_whole {ls : List FoldedLine}
    (h : ∀ l ∈ ls, l.isComment = true → l.more = []) : harmless ls = true := by
  have hplaced : ∀ seen, placed seen ls = true := by
    induction ls with
    | nil => exact fun _ => rfl
    | cons l rest ih =>
        obtain ⟨hl, hrest⟩ := List.forall_mem_cons.mp h
        intro seen
        rw [placed, ih hrest, Bool.and_true]
        cases hcomment : l.isComment with
        | true => simp [hl hcomment]
        | false => simp
  rw [harmless, hplaced, Bool.true_and, List.all_eq_true]
  intro l hl
  rw [stray, List.isEmpty_iff]
  split
  · next hcomment =>
    rw [h l hl hcomment]
    rfl
  · rfl

end FoldedLine

/-- **WHAT FOLDING CHANGES**: the lines that are taken in of a record are the same with and
    without its folds exactly if no fold of a comment shows, and then so is the entry that is
    read of it or the error.  That is so whenever no comment is folded, whichever other lines
    are and however often. -/
theorem folding_harmless_iff (ls : List FoldedLine) :
    (Ldif.unfold [] (Ldif.lines (recordText ls).toList)
          = Ldif.unfold [] (Ldif.lines (recordText (ls.map FoldedLine.flat)).toList)
        ↔ FoldedLine.harmless ls = true)
      ∧ (FoldedLine.harmless ls = true →
        Entry.ofLdif (recordText ls) = Entry.ofLdif (recordText (ls.map FoldedLine.flat)))
      ∧ ((∀ l ∈ ls, l.isComment = true → l.more = []) →
        Entry.ofLdif (recordText ls) = Entry.ofLdif (recordText (ls.map FoldedLine.flat))) := by
  have hread : FoldedLine.harmless ls = true →
      Entry.ofLdif (recordText ls) = Entry.ofLdif (recordText (ls.map FoldedLine.flat)) := by
    intro h
    rw [Entry.ofLdif, Entry.ofLdif, (FoldedLine.unfold_eq_iff ls).mpr h]
  exact ⟨FoldedLine.unfold_eq_iff ls, hread,
    fun h => hread (FoldedLine.harmless_of_comments_whole h)⟩

-- ── Folded records ───────────────────────────────────────────────────────────────

/-- A record with a comment, of which the attribute line is folded. -/
def foldedRecord : List FoldedLine :=
  [⟨"# an address".toList, [], by decide, nofun, by decide, nofun⟩,
   ⟨"dn: cn=a".toList, [], by decide, nofun, by decide, nofun⟩,
   ⟨"mail: a@".toList, ["x.".toList, "y".toList], by decide, by decide, by decide, by decide⟩]

/-- The value is read without the folds. -/
theorem folded_value_read :
    recordText foldedRecord = "# an address\ndn: cn=a\nmail: a@\n x.\n y"
      ∧ Entry.ofLdif (recordText foldedRecord)
        = Entry.ofLdif (recordText (foldedRecord.map FoldedLine.flat))
      ∧ ((Entry.ofLdif (recordText foldedRecord)).toOption.bind fun e => e.value? "mail")
        = some "a@x.y" := by
  obtain ⟨-, -, hread⟩ := folding_harmless_iff foldedRecord
  exact ⟨by decide +kernel, hread (by decide), by decide +kernel⟩

/-- A record of a name and a comment, of which the comment is folded. -/
def commentedRecord : List FoldedLine :=
  [⟨"dn: cn=a".toList, [], by decide, nofun, by decide, nofun⟩,
   ⟨"# com".toList, ["ment".toList], by decide, by decide, by decide, by decide⟩]

/-- The end of the comment is read as the end of the name. -/
theorem comment_read_as_name :
    recordText commentedRecord = "dn: cn=a\n# com\n ment"
      ∧ recordText (commentedRecord.map FoldedLine.flat) = "dn: cn=a\n# comment"
      ∧ Entry.ofLdif (recordText commentedRecord)
        ≠ Entry.ofLdif (recordText (commentedRecord.map FoldedLine.flat)) := by
  have hfolded : ((Entry.ofLdif (recordText commentedRecord)).toOption.map fun e => e.dn.display)
      = some "cn=ament" := by
    decide +kernel
  have hplain : ((Entry.ofLdif (recordText (commentedRecord.map FoldedLine.flat))).toOption.map
      fun e => e.dn.display) = some "cn=a" := by
    decide +kernel
  refine ⟨by decide +kernel, by decide +kernel, fun h => ?_⟩
  rw [h, hplain] at hfolded
  exact absurd hfolded (by decide)

end DirectoryAccess
