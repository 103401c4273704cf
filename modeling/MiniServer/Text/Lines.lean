import MiniServer.Text.Search

/-!
# Lines and header blocks

Text is cut into lines at a two-symbol end mark `cr lf`, always at the first one that occurs.
A *header block* is a sequence of nonempty lines closed by an empty line; what follows it is its
body.

## Main results

* `Text.cutLine_eq_some_iff` : the first line is the text in front of the first end mark.
* `Text.HeaderBlock.unique` : a text has at most one header block.
* `Text.HeaderBlock.find_blank` : the first blank line of a text with a nonempty header block is
  the one that closes the block, so a search for `cr lf cr lf` and a reader of lines stop at the
  same place.
-/

namespace MiniServer

namespace Text

variable {α : Type*} [DecidableEq α] {cr lf : α}

/-- The text in front of the first end mark and the text behind it. -/
def cutLine (cr lf : α) (s : List α) : Option (List α × List α) :=
  (find [cr, lf] s).map fun i => (s.take i, s.drop (i + 2))

/-- A text without end mark. -/
def IsLine (cr lf : α) (l : List α) : Prop := find [cr, lf] l = none

instance (l : List α) : Decidable (IsLine cr lf l) := inferInstanceAs (Decidable (_ = _))

theorem IsLine.tail {a : α} {l : List α} (h : IsLine cr lf (a :: l)) : IsLine cr lf l := by
  unfold IsLine at h
  rw [find] at h
  split_ifs at h with hpre
  exact Option.map_eq_none_iff.1 h

/-- A text that lacks the first symbol of the end mark is a line. -/
theorem isLine_of_not_mem {l : List α} (h : cr ∉ l) : IsLine cr lf l := by
  refine find_eq_none_iff.2 fun i hi => h ?_
  have hmem : cr ∈ l.drop i := hi.2.subset List.mem_cons_self
  exact List.mem_of_mem_drop hmem

theorem IsLine.find_append (hne : cr ≠ lf) {l : List α} (h : IsLine cr lf l) (t : List α) :
    find [cr, lf] (l ++ cr :: lf :: t) = some l.length := by
  induction l with
  | nil => simp [find]
  | cons a l ih =>
    rw [List.cons_append, find, if_neg, ih h.tail]
    · rfl
    -- an end mark that starts in the line would end in it
    intro hpre
    cases l with
    | nil => simp [List.cons_prefix_cons, hne.symm] at hpre
    | cons b l =>
      simp only [List.cons_append, List.cons_prefix_cons, List.nil_prefix, and_true] at hpre
      unfold IsLine at h
      rw [find, if_pos (by simp [List.cons_prefix_cons, hpre])] at h
      cases h

theorem IsLine.not_mark_prefix (hne : cr ≠ lf) {l : List α} (h : IsLine cr lf l) (hl : l ≠ [])
    (t : List α) : ¬ [cr, lf] <+: l ++ cr :: lf :: t := by
  intro hpre
  have hfind := h.find_append hne t
  cases l with
  | nil => exact hl rfl
  | cons a l =>
    rw [List.cons_append] at hpre hfind
    rw [find, if_pos hpre] at hfind
    cases hfind

theorem IsLine.not_blank_prefix (hne : cr ≠ lf) {l : List α} (h : IsLine cr lf l) (hl : l ≠ [])
    (t : List α) : ¬ [cr, lf, cr, lf] <+: l ++ cr :: lf :: t := fun hpre =>
  h.not_mark_prefix hne hl t ((List.prefix_append [cr, lf] [cr, lf]).trans hpre)

/-- A blank line does not start inside a line. -/
theorem IsLine.find_append_blank (hne : cr ≠ lf) {l : List α} (h : IsLine cr lf l)
    (t : List α) : find [cr, lf, cr, lf] (l ++ cr :: lf :: cr :: lf :: t) = some l.length := by
  induction l with
  | nil => simp [find]
  | cons a l ih =>
    rw [List.cons_append, find, if_neg, ih h.tail]
    · rfl
    · exact h.not_blank_prefix hne (List.cons_ne_nil a l) _

/-- ... nor at its end when another line follows. -/
theorem IsLine.find_blank_append (hne : cr ≠ lf) {l : List α} (h : IsLine cr lf l) {s : List α}
    (hs : ¬ [cr, lf] <+: s) :
    find [cr, lf, cr, lf] (l ++ cr :: lf :: s) =
      (find [cr, lf, cr, lf] s).map (· + (l.length + 2)) := by
  induction l with
  | nil =>
    rw [List.nil_append, find, if_neg, find, if_neg, Option.map_map]
    · rfl
    · simp [List.cons_prefix_cons, hne]
    · simpa [List.cons_prefix_cons] using hs
  | cons a l ih =>
    rw [List.cons_append, find, if_neg, ih h.tail, Option.map_map]
    · rfl
    · exact h.not_blank_prefix hne (List.cons_ne_nil a l) _

theorem cutLine_eq_some_iff (hne : cr ≠ lf) {s l rest : List α} :
    cutLine cr lf s = some (l, rest) ↔ s = l ++ cr :: lf :: rest ∧ IsLine cr lf l := by
  unfold cutLine
  rw [Option.map_eq_some_iff]
  constructor
  · rintro ⟨i, hi, heq⟩
    rw [Prod.mk.injEq] at heq
    obtain ⟨rfl, rfl⟩ := heq
    obtain ⟨hocc, hmin⟩ := find_eq_some_iff.1 hi
    constructor
    · obtain ⟨u, hu⟩ := hocc.2
      have hdrop : s.drop (i + 2) = u := by
        rw [← List.drop_drop, ← hu]
        rfl
      rw [hdrop]
      exact (List.take_append_drop i s).symm.trans (congrArg _ hu.symm)
    · refine find_eq_none_iff.2 fun j hj => hmin j ?_ ?_
      · have := hj.le
        rw [List.length_take] at this
        simp only [List.length_cons, List.length_nil] at this
        omega
      · rw [← List.take_append_drop i s]
        exact hj.append _
  · rintro ⟨rfl, hl⟩
    refine ⟨l.length, hl.find_append hne rest, ?_⟩
    simp [List.drop_append]

/-- The text cut at every end mark. -/
def splitLines (cr lf : α) : List α → List (List α)
  | [] => [[]]
  | [a] => [[a]]
  | a :: b :: s =>
    if a = cr ∧ b = lf then [] :: splitLines cr lf s
    else
      let lines := splitLines cr lf (b :: s)
      (a :: lines.headD []) :: lines.tail

theorem splitLines_mark (s : List α) :
    splitLines cr lf (cr :: lf :: s) = [] :: splitLines cr lf s := by
  rw [splitLines, if_pos ⟨rfl, rfl⟩]

theorem IsLine.splitLines_append (hne : cr ≠ lf) {l : List α} (h : IsLine cr lf l) (s : List α) :
    splitLines cr lf (l ++ cr :: lf :: s) = l :: splitLines cr lf s := by
  induction l with
  | nil => exact splitLines_mark s
  | cons a l ih =>
    have hrest := ih h.tail
    have hmark := h.not_mark_prefix hne (List.cons_ne_nil a l) s
    cases l with
    | nil =>
      rw [List.cons_append, List.nil_append, splitLines, if_neg (fun hab => hne hab.2)]
      rw [List.nil_append] at hrest
      rw [hrest]
      rfl
    | cons b l =>
      rw [List.cons_append, List.cons_append, splitLines, if_neg, ← List.cons_append, hrest]
      · rfl
      · rintro ⟨rfl, rfl⟩
        exact hmark (List.prefix_append [a, b] _)

/-! ### Header blocks -/

/-- `s` is the lines `ls`, none of them empty, an empty line and `body`. -/
inductive HeaderBlock (cr lf : α) : List α → List (List α) → List α → Prop
  | blank (body : List α) : HeaderBlock cr lf (cr :: lf :: body) [] body
  | line {l s body : List α} {ls : List (List α)} : l ≠ [] → IsLine cr lf l →
      HeaderBlock cr lf s ls body → HeaderBlock cr lf (l ++ cr :: lf :: s) (l :: ls) body

/-- The text of a header block. -/
def blockText (cr lf : α) (ls : List (List α)) : List α :=
  (ls.map (· ++ [cr, lf])).flatten ++ [cr, lf]

omit [DecidableEq α] in
theorem blockText_cons (l : List α) (ls : List (List α)) :
    blockText cr lf (l :: ls) = l ++ cr :: lf :: blockText cr lf ls := by
  simp [blockText]

/-- The lines of a header block, the empty line and the empty text behind it. -/
theorem splitLines_blockText (hne : cr ≠ lf) {ls : List (List α)} (h : ∀ l ∈ ls, IsLine cr lf l) :
    splitLines cr lf (blockText cr lf ls) = ls ++ [[], []] := by
  induction ls with
  | nil => exact splitLines_mark []
  | cons l ls ih =>
    rw [blockText_cons, (h l List.mem_cons_self).splitLines_append hne,
      ih fun l' hl' => h l' (List.mem_cons_of_mem l hl')]
    rfl

namespace HeaderBlock

theorem eq_append {s body : List α} {ls : List (List α)} (h : HeaderBlock cr lf s ls body) :
    s = blockText cr lf ls ++ body := by
  induction h with
  | blank body => rfl
  | line _ _ _ ih => rw [blockText_cons, ih]; simp

theorem of_lines {ls : List (List α)} (h : ∀ l ∈ ls, l ≠ [] ∧ IsLine cr lf l) (body : List α) :
    HeaderBlock cr lf (blockText cr lf ls ++ body) ls body := by
  induction ls with
  | nil => exact blank body
  | cons l ls ih =>
    rw [blockText_cons]
    simp only [List.append_assoc, List.cons_append]
    obtain ⟨hne, hl⟩ := h l List.mem_cons_self
    exact line hne hl (ih fun l' hl' => h l' (List.mem_cons_of_mem _ hl'))

theorem isLine {s body : List α} {ls : List (List α)} (h : HeaderBlock cr lf s ls body) :
    ∀ l ∈ ls, l ≠ [] ∧ IsLine cr lf l := by
  induction h with
  | blank => simp
  | line hne hl _ ih => simpa using ⟨⟨hne, hl⟩, ih⟩

/-- The first line of a header block, which is empty at its end. -/
theorem cutLine_eq (hne : cr ≠ lf) {s body : List α} {ls : List (List α)}
    (h : HeaderBlock cr lf s ls body) :
    ∃ rest, cutLine cr lf s = some (ls.headD [], rest) ∧
      (ls = [] → rest = body) ∧ (ls ≠ [] → HeaderBlock cr lf rest ls.tail body) := by
  cases h with
  | blank body => exact ⟨body, (cutLine_eq_some_iff hne).2 ⟨rfl, rfl⟩, by simp, by simp⟩
  | line _ hl h => exact ⟨_, (cutLine_eq_some_iff hne).2 ⟨rfl, hl⟩, by simp, fun _ => h⟩

/-- **A text has at most one header block.** -/
theorem unique (hne : cr ≠ lf) {s body body' : List α} {ls ls' : List (List α)}
    (h : HeaderBlock cr lf s ls body) (h' : HeaderBlock cr lf s ls' body') :
    ls = ls' ∧ body = body' := by
  induction h generalizing ls' with
  | blank body =>
    obtain ⟨rest, hcut, hnil, -⟩ := h'.cutLine_eq hne
    rw [(cutLine_eq_some_iff hne).2 ⟨(List.nil_append _).symm, rfl⟩, Option.some.injEq,
      Prod.mk.injEq] at hcut
    obtain ⟨hhead, rfl⟩ := hcut
    cases ls' with
    | nil => exact ⟨rfl, hnil rfl⟩
    | cons l' ls' => exact absurd hhead.symm (h'.isLine l' List.mem_cons_self).1
  | @line l s body ls hl hline _ ih =>
    obtain ⟨rest, hcut, hnil, hcons⟩ := h'.cutLine_eq hne
    rw [(cutLine_eq_some_iff hne).2 ⟨rfl, hline⟩, Option.some.injEq, Prod.mk.injEq] at hcut
    obtain ⟨hhead, rfl⟩ := hcut
    cases ls' with
    | nil => exact absurd hhead hl
    | cons l' ls' =>
      obtain ⟨rfl, rfl⟩ := ih (hcons (by simp))
      exact ⟨by rw [hhead]; rfl, rfl⟩

/-- A text with a blank line has a header block. -/
theorem exists_of_blank (hne : cr ≠ lf) {s : List α} (h : find [cr, lf, cr, lf] s ≠ none) :
    ∃ ls body, HeaderBlock cr lf s ls body := by
  induction hn : s.length using Nat.strong_induction_on generalizing s with
  | _ n ih =>
    -- a blank line starts with an end mark, so there is a first line
    have hmark : find [cr, lf] s ≠ none := by
      intro hnone
      obtain ⟨i, hi⟩ := Option.ne_none_iff_exists'.1 h
      have hocc := find_occursAt hi
      exact find_eq_none_iff.1 hnone i
        ⟨hocc.1, (List.prefix_append [cr, lf] [cr, lf]).trans hocc.2⟩
    obtain ⟨i, hi⟩ := Option.ne_none_iff_exists'.1 hmark
    have hcut : cutLine cr lf s = some (s.take i, s.drop (i + 2)) := by rw [cutLine, hi]; rfl
    generalize s.take i = l, s.drop (i + 2) = rest at hcut
    obtain ⟨rfl, hl⟩ := (cutLine_eq_some_iff hne).1 hcut
    by_cases hempty : l = []
    · exact ⟨[], rest, hempty ▸ blank rest⟩
    by_cases hrest : [cr, lf] <+: rest
    · obtain ⟨body, rfl⟩ := hrest
      exact ⟨[l], body, line hempty hl (blank body)⟩
    · rw [hl.find_blank_append hne hrest, Ne, Option.map_eq_none_iff] at h
      have hlt : rest.length < n := by simp [← hn]; omega
      obtain ⟨ls, body, hblock⟩ := ih rest.length hlt h rfl
      exact ⟨l :: ls, body, line hempty hl hblock⟩

/-- **The first blank line closes the header block.** -/
theorem find_blank (hne : cr ≠ lf) {s body : List α} {ls : List (List α)}
    (h : HeaderBlock cr lf s ls body) (hls : ls ≠ []) :
    ∃ i, find [cr, lf, cr, lf] s = some i ∧ i + 4 = (blockText cr lf ls).length := by
  induction h with
  | blank => exact absurd rfl hls
  | @line l s body ls hl hline hblock ih =>
    rw [blockText_cons]
    cases hblock with
    | blank body => exact ⟨l.length, hline.find_append_blank hne body, by simp [blockText]⟩
    | @line l' s' _ ls' hl' hline' _ =>
      obtain ⟨i, hi, hlen⟩ := ih (List.cons_ne_nil l' ls')
      refine ⟨i + (l.length + 2), ?_, ?_⟩
      · rw [hline.find_blank_append hne (hline'.not_mark_prefix hne hl' s'), hi, Option.map_some]
      · rw [List.length_append, List.length_cons, List.length_cons, ← hlen]
        omega

end HeaderBlock

end Text

end MiniServer
