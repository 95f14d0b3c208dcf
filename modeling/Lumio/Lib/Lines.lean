import Lumio.Lib.Text

/-!
# Lines of a text

A text put together from lines by line feeds is read back as these lines. Lines may be grouped under those among them
that are headings.
-/

namespace Text

/-- What `lines` can yield: no line feed, and no carriage return at the end. -/
def IsLine (line : Text) : Prop := '\n' ∉ line ∧ line.getLast? ≠ some '\r'

instance (line : Text) : Decidable (IsLine line) := inferInstanceAs (Decidable (_ ∧ _))

variable {line rest : Text} {ls : List Text}

theorem isLine_append {start : Text} (hstart : IsLine start) (hline : IsLine line) : IsLine (start ++ line) := by
  refine ⟨by simp [hstart.1, hline.1], ?_⟩
  cases line with
  | nil => simpa using hstart.2
  | cons c line =>
    rw [List.getLast?_append_of_ne_nil _ (by simp)]
    exact hline.2

theorem splitInclusive_line (h : '\n' ∉ line) :
    splitInclusive (line ++ '\n' :: rest) = (line ++ ['\n']) :: splitInclusive rest := by
  induction line with
  | nil => simp [splitInclusive]
  | cons c line ih =>
    obtain ⟨hc, hline⟩ : '\n' ≠ c ∧ '\n' ∉ line := by simpa using h
    rw [List.cons_append, splitInclusive, if_neg (Ne.symm hc), ih hline]
    rfl

theorem splitInclusive_last (h : '\n' ∉ line) (hne : line ≠ []) : splitInclusive line = [line] := by
  induction line with
  | nil => exact absurd rfl hne
  | cons c line ih =>
    obtain ⟨hc, hline⟩ : '\n' ≠ c ∧ '\n' ∉ line := by simpa using h
    rw [splitInclusive, if_neg (Ne.symm hc)]
    cases line with
    | nil => rfl
    | cons d line => rw [ih hline (by simp)]

inductive Segments : List Text → Prop where
  | nil : Segments []
  | last {line : Text} (h : '\n' ∉ line) (hne : line ≠ []) : Segments [line]
  | line {line : Text} {rest : List Text} (h : '\n' ∉ line) (hrest : Segments rest) : Segments ((line ++ ['\n']) :: rest)

variable (text : Text)

theorem segments_splitInclusive : Segments (splitInclusive text) := by
  induction text with
  | nil => exact .nil
  | cons c text ih =>
    rw [splitInclusive]
    split_ifs with hc
    · subst hc
      exact .line List.not_mem_nil ih
    · cases hsplit : splitInclusive text with
      | nil => exact .last (by simpa using Ne.symm hc) (List.cons_ne_nil c [])
      | cons first more =>
        rw [hsplit] at ih
        cases ih with
        | last h hne => exact .last (by simp [Ne.symm hc, h]) (List.cons_ne_nil c first)
        | @line piece _ h hrest =>
          have hpiece : '\n' ∉ c :: piece := by simp [Ne.symm hc, h]
          exact .line hpiece hrest

theorem flatten_splitInclusive : (splitInclusive text).flatten = text := by
  induction text with
  | nil => rfl
  | cons c text ih =>
    rw [splitInclusive]
    split_ifs with hc
    · rw [List.flatten_cons, ih]
      rfl
    · cases hsplit : splitInclusive text with
      | nil =>
        rw [hsplit] at ih
        rw [← ih]
        rfl
      | cons first more =>
        rw [hsplit] at ih
        rw [← ih]
        rfl

theorem splitInclusive_inj {text other : Text} (h : splitInclusive text = splitInclusive other) : text = other := by
  rw [← flatten_splitInclusive text, h, flatten_splitInclusive]

theorem Segments.splitInclusive_flatten {pieces : List Text} (h : Segments pieces) :
    splitInclusive pieces.flatten = pieces := by
  induction h with
  | nil => rfl
  | last h hne => rw [List.flatten_singleton, splitInclusive_last h hne]
  | line h _ ih => rw [List.flatten_cons, List.append_assoc, List.singleton_append, splitInclusive_line h, ih]

theorem stripLineEnd_line (h : IsLine line) : stripLineEnd (line ++ ['\n']) = line := by
  simp [stripLineEnd, h.2]

theorem stripLineEnd_last (h : IsLine line) : stripLineEnd line = line := by
  have hlast : line.getLast? ≠ some '\n' := fun hlast => h.1 (List.mem_of_getLast? hlast)
  rw [stripLineEnd, if_neg hlast]

theorem lines_line (h : IsLine line) (rest : Text) : lines (line ++ '\n' :: rest) = line :: lines rest := by
  rw [lines, splitInclusive_line h.1, List.map_cons, stripLineEnd_line h, lines]

theorem lines_last (h : IsLine line) (hne : line ≠ []) : lines line = [line] := by
  rw [lines, splitInclusive_last h.1 hne, List.map_singleton, stripLineEnd_last h]

theorem lines_flatMap (hline : IsLine line) (hlines : ∀ l ∈ ls, IsLine l) (hlast : (line :: ls).getLast? ≠ some []) :
    lines (line ++ ls.flatMap ('\n' :: ·)) = line :: ls := by
  induction ls generalizing line with
  | nil =>
    have hne : line ≠ [] := by simpa using hlast
    rw [List.flatMap_nil, List.append_nil, lines_last hline hne]
  | cons next ls ih =>
    have hnext := ih (hlines next List.mem_cons_self) (fun l hl => hlines l (List.mem_cons_of_mem next hl))
      (by simpa [List.getLast?_cons_cons] using hlast)
    rw [List.flatMap_cons, List.cons_append, lines_line hline, hnext]

theorem splitInclusive_isPrefix {text : Text} (h : splitInclusive text = line :: ls) : line <+: text := by
  induction text generalizing line ls with
  | nil => simp [splitInclusive] at h
  | cons c text ih =>
    rw [splitInclusive] at h
    split_ifs at h with hc
    · obtain ⟨rfl, -⟩ := List.cons.inj h
      exact ⟨text, rfl⟩
    · cases hsplit : splitInclusive text with
      | nil =>
        rw [hsplit] at h
        obtain ⟨rfl, -⟩ := List.cons.inj h
        exact ⟨text, rfl⟩
      | cons next rest =>
        rw [hsplit] at h
        obtain ⟨rfl, -⟩ := List.cons.inj h
        obtain ⟨more, hmore⟩ := ih hsplit
        exact ⟨more, by rw [← hmore]; rfl⟩

theorem stripLineEnd_isPrefix (line : Text) : stripLineEnd line <+: line := by
  rw [stripLineEnd]
  dsimp only
  split_ifs
  · exact (List.dropLast_prefix _).trans (List.dropLast_prefix _)
  · exact List.dropLast_prefix _
  · exact List.prefix_rfl

theorem prefix_of_lines {text : Text} (h : lines text = line :: ls) : line <+: text := by
  cases hsplit : splitInclusive text with
  | nil => simp [lines, hsplit] at h
  | cons first rest =>
    rw [lines, hsplit, List.map_cons] at h
    obtain ⟨rfl, -⟩ := List.cons.inj h
    exact (stripLineEnd_isPrefix first).trans (splitInclusive_isPrefix hsplit)

theorem join_newline (line : Text) (ls : List Text) :
    join ['\n'] (line :: ls) = line ++ ls.flatMap ('\n' :: ·) := by
  induction ls generalizing line with
  | nil => simp [join]
  | cons next ls ih =>
    have hnext := ih next
    simp only [join] at hnext ⊢
    simp [List.intersperse, hnext]

theorem lines_join (hlines : ∀ l ∈ ls, IsLine l) (hlast : ls.getLast? ≠ some []) : lines (join ['\n'] ls) = ls := by
  cases ls with
  | nil => rfl
  | cons line ls =>
    rw [join_newline]
    exact lines_flatMap (hlines line List.mem_cons_self) (fun l hl => hlines l (List.mem_cons_of_mem line hl)) hlast

theorem lines_join_empty (hlines : ∀ l ∈ ls, IsLine l) : lines (join ['\n'] (ls ++ [[]])) = ls := by
  have hjoin : join ['\n'] (ls ++ [[]]) = ls.flatMap (· ++ ['\n']) := by
    cases ls with
    | nil => rfl
    | cons line ls =>
      rw [List.cons_append, join_newline]
      clear hlines
      induction ls generalizing line with
      | nil => simp
      | cons next ls ih =>
        have hnext := ih next
        simp only [List.cons_append, List.flatMap_cons, List.append_assoc, List.nil_append] at hnext ⊢
        rw [hnext]
  rw [hjoin]
  clear hjoin
  induction ls with
  | nil => rfl
  | cons line ls ih =>
    rw [List.flatMap_cons, List.append_assoc, List.singleton_append, lines_line (hlines line List.mem_cons_self),
      ih fun l hl => hlines l (List.mem_cons_of_mem line hl)]

theorem lines_join_iff (hlines : ∀ l ∈ ls, IsLine l) :
    lines (join ['\n'] ls) = ls ↔ ls.getLast? ≠ some [] := by
  refine ⟨fun h hlast => ?_, lines_join hlines⟩
  obtain ⟨start, rfl⟩ := List.getLast?_eq_some_iff.mp hlast
  rw [lines_join_empty fun l hl => hlines l (List.mem_append_left _ hl)] at h
  simpa using congrArg List.length h

theorem isLine_lines_join (hlines : ∀ l ∈ ls, IsLine l) : ∀ l ∈ lines (join ['\n'] ls), IsLine l := by
  by_cases hlast : ls.getLast? = some []
  · obtain ⟨start, rfl⟩ := List.getLast?_eq_some_iff.mp hlast
    have hstart : ∀ l ∈ start, IsLine l := fun l hl => hlines l (List.mem_append_left _ hl)
    rwa [lines_join_empty hstart]
  · rwa [lines_join hlines hlast]

/-! ## Trimmed texts -/

theorem trimEnd_last {c : Char} (h : (trimEnd text).getLast? = some c) : isWhitespace c = false := by
  rw [trimEnd, List.getLast?_reverse] at h
  have hhead := List.head?_dropWhile_not isWhitespace text.reverse
  rw [h] at hhead
  simpa using hhead

theorem trimEnd_of_last {text : Text} (h : ∀ c, text.getLast? = some c → isWhitespace c = false) : trimEnd text = text := by
  rw [trimEnd]
  cases hreverse : text.reverse with
  | nil => simpa using hreverse.symm
  | cons c rest =>
    have hlast : text.getLast? = some c := by rw [← List.head?_reverse, hreverse]; rfl
    rw [List.dropWhile_cons_of_neg (by simp [h c hlast]), ← hreverse, List.reverse_reverse]

theorem trimEnd_isPrefix : trimEnd text <+: text := by
  rw [trimEnd, ← List.reverse_suffix, List.reverse_reverse]
  exact List.dropWhile_suffix _

theorem trim_head {c : Char} (h : (trim text).head? = some c) : isWhitespace c = false := by
  have hstart : (trimStart text).head? = some c := by
    obtain ⟨rest, hrest⟩ := trimEnd_isPrefix (trimStart text)
    change (trimEnd (trimStart text)).head? = some c at h
    rw [← hrest, List.head?_append, h]
    rfl
  have hhead := List.head?_dropWhile_not isWhitespace text
  rw [trimStart] at hstart
  rw [hstart] at hhead
  simpa using hhead

theorem trim_trim : trim (trim text) = trim text := by
  have hstart : trimStart (trim text) = trim text := by
    rw [trimStart]
    cases htext : trim text with
    | nil => rfl
    | cons c rest =>
      have hhead := trim_head text (c := c) (by rw [htext]; rfl)
      rw [List.dropWhile_cons_of_neg (by simp [hhead])]
  have hend : trimEnd (trim text) = trim text := trimEnd_of_last fun c h => trimEnd_last (trimStart text) h
  conv_lhs => rw [trim, hstart, hend]

theorem isLine_trim {text : Text} (h : '\n' ∉ text) : IsLine (trim text) := by
  constructor
  · intro hmem
    exact h ((List.dropWhile_suffix _).subset ((trimEnd_isPrefix _).subset hmem))
  · intro hlast
    have hspace := trimEnd_last (trimStart text) hlast
    exact absurd hspace (by decide)

end Text

namespace List

variable {α : Type} (heading : α → Bool)

def underHeadings : List α → List α × List (α × List α)
  | [] => ([], [])
  | x :: xs =>
    let groups := underHeadings xs
    if heading x then ([], (x, groups.1) :: groups.2) else (x :: groups.1, groups.2)

variable {heading} {xs : List α} {groups : List (α × List α)}

theorem underHeadings_append (h : ∀ x ∈ xs, heading x = false) (ys : List α) :
    underHeadings heading (xs ++ ys) = (xs ++ (underHeadings heading ys).1, (underHeadings heading ys).2) := by
  induction xs with
  | nil => rfl
  | cons x xs ih =>
    have hxs := ih fun y hy => h y (mem_cons_of_mem x hy)
    simp [underHeadings, h x mem_cons_self, hxs]

theorem underHeadings_flatMap (hheadings : ∀ group ∈ groups, heading group.1 = true)
    (hitems : ∀ group ∈ groups, ∀ x ∈ group.2, heading x = false) :
    underHeadings heading (groups.flatMap fun group => group.1 :: group.2) = ([], groups) := by
  induction groups with
  | nil => rfl
  | cons group groups ih =>
    have hgroups := ih (fun g hg => hheadings g (mem_cons_of_mem group hg))
      (fun g hg => hitems g (mem_cons_of_mem group hg))
    rw [flatMap_cons, cons_append, underHeadings, underHeadings_append (hitems group mem_cons_self), hgroups]
    simp [hheadings group mem_cons_self]

theorem underHeadings_layout (hxs : ∀ x ∈ xs, heading x = false) (hheadings : ∀ group ∈ groups, heading group.1 = true)
    (hitems : ∀ group ∈ groups, ∀ x ∈ group.2, heading x = false) :
    underHeadings heading (xs ++ groups.flatMap fun group => group.1 :: group.2) = (xs, groups) := by
  rw [underHeadings_append hxs, underHeadings_flatMap hheadings hitems, append_nil]

end List
