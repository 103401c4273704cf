import Mathlib.Data.List.Infix

/-!
# Names of files, read lexically

A name is cut into segments at `slash`; empty segments and `dot` change nothing.  `Inside dir name`
says that `name` is, up to such segments, `dir`, a slash and segments none of which leads
upwards.

Programs often build a name by plain concatenation.  `inside_append_iff` says exactly when
`dir ++ q` stays inside `dir`.
-/

namespace MiniServer

namespace Path

variable {α : Type*} [DecidableEq α] (slash dot : α)

/-- The segments of a name that count. -/
def segments (s : List α) : List (List α) :=
  (s.splitOn slash).filter fun seg => seg ≠ [] ∧ seg ≠ [dot]

/-- The lexical normal form of a name: whether it is absolute, and its segments. -/
def normal (s : List α) : Bool × List (List α) := (s.head? = some slash, segments slash dot s)

/-- `name` is `dir`, a slash and segments none of which leads upwards. -/
def Inside (dir name : List α) : Prop :=
  ∃ t, [dot, dot] ∉ t.splitOn slash ∧ normal slash dot name = normal slash dot (dir ++ slash :: t)

/-- Where a suffix `q` without two dots in a row stays inside `dir`: it starts with a slash, or it
is empty, or `dir` ends with a slash, or `dir` ends with the segment `dot` and `q` does not
start with it. -/
def StaysInside (dir q : List α) : Prop :=
  q.head? = some slash ∨
    dir ≠ [] ∧ (q = [] ∨ dir.getLast? = some slash ∨
      (dir = [dot] ∨ [slash, dot] <:+ dir) ∧ ¬ (q = [dot] ∨ [dot, slash] <+: q))

instance (dir q : List α) : Decidable (StaysInside slash dot dir q) :=
  inferInstanceAs (Decidable (_ ∨ _))

variable {slash dot}

/-! ### Segments of a concatenation -/

theorem segments_append_slash (a b : List α) :
    segments slash dot (a ++ slash :: b) = segments slash dot a ++ segments slash dot b := by
  unfold segments
  rw [List.splitOn_append_cons_self, List.filter_append]

theorem segments_of_not_mem {e : List α} (h : slash ∉ e) :
    segments slash dot e = if e = [] ∨ e = [dot] then [] else [e] := by
  unfold segments
  rw [List.splitOn_eq_singleton h]
  by_cases he : e = [] ∨ e = [dot]
  · rcases he with rfl | rfl <;> simp
  · rw [if_neg he]
    simpa [not_or] using he

@[simp] theorem segments_nil : segments slash dot ([] : List α) = [] := by simp [segments]

@[simp] theorem segments_slash_cons (b : List α) :
    segments slash dot (slash :: b) = segments slash dot b := by
  rw [← List.nil_append (slash :: b), segments_append_slash, segments_nil, List.nil_append]

variable (slash) in
/-- A name up to and with its last slash, and its last segment. -/
theorem exists_last (s : List α) :
    ∃ p e, s = p ++ e ∧ slash ∉ e ∧ (p = [] ∨ ∃ p', p = p' ++ [slash]) := by
  induction s using List.reverseRecOn with
  | nil => exact ⟨[], [], rfl, List.not_mem_nil, .inl rfl⟩
  | append_singleton s a ih =>
    by_cases ha : a = slash
    · subst ha
      exact ⟨s ++ [a], [], (List.append_nil _).symm, List.not_mem_nil, .inr ⟨s, rfl⟩⟩
    · obtain ⟨p, e, rfl, he, hp⟩ := ih
      refine ⟨p, e ++ [a], List.append_assoc p e [a], ?_, hp⟩
      simpa [he] using Ne.symm ha

variable (slash) in
/-- The first segment of a name, and the rest from the first slash on. -/
theorem exists_first (s : List α) :
    ∃ f q, s = f ++ q ∧ slash ∉ f ∧ (q = [] ∨ ∃ t, q = slash :: t) := by
  induction s with
  | nil => exact ⟨[], [], rfl, List.not_mem_nil, .inl rfl⟩
  | cons a s ih =>
    by_cases ha : a = slash
    · subst ha
      exact ⟨[], a :: s, rfl, List.not_mem_nil, .inr ⟨s, rfl⟩⟩
    · obtain ⟨f, q, rfl, hf, hq⟩ := ih
      refine ⟨a :: f, q, rfl, ?_, hq⟩
      simpa [hf] using Ne.symm ha

theorem segments_append_of_end {p : List α} (hp : p = [] ∨ ∃ p', p = p' ++ [slash])
    (x : List α) :
    segments slash dot (p ++ x) = segments slash dot p ++ segments slash dot x := by
  rcases hp with rfl | ⟨p', rfl⟩
  · rw [segments_nil, List.nil_append, List.nil_append]
  · rw [List.append_assoc, List.singleton_append, segments_append_slash, segments_append_slash,
      segments_nil, List.append_nil]

theorem segments_append_of_start {q : List α} (hq : q = [] ∨ ∃ t, q = slash :: t)
    (x : List α) :
    segments slash dot (x ++ q) = segments slash dot x ++ segments slash dot q := by
  rcases hq with rfl | ⟨t, rfl⟩
  · simp
  · rw [segments_append_slash, segments_slash_cons]

theorem infix_of_mem_splitOn {t seg : List α} (h : seg ∈ t.splitOn slash) : seg <:+: t := by
  induction hn : t.length using Nat.strong_induction_on generalizing t with
  | _ n ih =>
    obtain ⟨f, q, rfl, hf, rfl | ⟨t', rfl⟩⟩ := exists_first slash t
    · rw [List.append_nil, List.splitOn_eq_singleton hf, List.mem_singleton] at h
      subst h
      exact (List.prefix_append seg []).isInfix
    · rw [List.splitOn_append_cons_self, List.splitOn_eq_singleton hf, List.singleton_append,
        List.mem_cons] at h
      rcases h with rfl | h
      · exact (List.prefix_append seg _).isInfix
      · have hlt : t'.length < n := by rw [← hn, List.length_append, List.length_cons]; omega
        have hsuffix : t' <:+ f ++ slash :: t' := ⟨f ++ [slash], by simp⟩
        exact (ih _ hlt h rfl).trans hsuffix.isInfix

/-! ### Concatenation that stays inside -/

theorem StaysInside.inside (hne : slash ≠ dot) {dir q : List α} (hdots : ¬ [dot, dot] <:+: q)
    (h : StaysInside slash dot dir q) : Inside slash dot dir (dir ++ q) := by
  have hsplit : ∀ {t}, t <:+ q → [dot, dot] ∉ t.splitOn slash := fun ht hmem =>
    hdots ((infix_of_mem_splitOn hmem).trans ht.isInfix)
  have hhead : dir ≠ [] → ∀ s t : List α, (dir ++ s).head? = (dir ++ t).head? := by
    intro hdir s t
    cases dir with
    | nil => exact absurd rfl hdir
    | cons a dir => rfl
  rcases h with hstart | ⟨hdir, rfl | hend | ⟨hend, hfirst⟩⟩
  · -- `q` begins with the slash
    obtain ⟨t, rfl⟩ := List.head?_eq_some_iff.1 hstart
    exact ⟨t, hsplit (List.suffix_cons slash t), rfl⟩
  · refine ⟨[], by simp, Prod.ext ?_ ?_⟩
    · simp only [normal, hhead hdir [] [slash]]
    · simp only [normal, segments_append_slash, segments_nil, List.append_nil]
  · -- `dir` ends with the slash
    obtain ⟨p, rfl⟩ := List.getLast?_eq_some_iff.1 hend
    refine ⟨q, hsplit List.suffix_rfl, Prod.ext ?_ ?_⟩
    · simp only [normal, hhead hdir q (slash :: q)]
    · simp only [normal]
      rw [segments_append_of_end (.inr ⟨p, rfl⟩), segments_append_of_end (.inr ⟨p, rfl⟩),
        segments_slash_cons]
  · -- the last segment of `dir` and the first one of `q` become one segment
    obtain ⟨p, rfl, hp⟩ : ∃ p, dir = p ++ [dot] ∧ (p = [] ∨ ∃ p', p = p' ++ [slash]) := by
      rcases hend with rfl | ⟨p', rfl⟩
      · exact ⟨[], rfl, .inl rfl⟩
      · exact ⟨p' ++ [slash], by simp, .inr ⟨p', rfl⟩⟩
    refine ⟨dot :: q, fun hmem => ?_, Prod.ext ?_ ?_⟩
    · obtain ⟨f, r, rfl, hf, hr⟩ := exists_first slash q
      have hfirst' : slash ∉ dot :: f := by simp [hf, hne]
      rcases hr with rfl | ⟨t, rfl⟩
      · rw [List.append_nil, List.splitOn_eq_singleton hfirst', List.mem_singleton] at hmem
        injection hmem with _ hmem
        exact hfirst (.inl (by rw [← hmem, List.append_nil]))
      · rw [← List.cons_append, List.splitOn_append_cons_self,
          List.splitOn_eq_singleton hfirst', List.singleton_append, List.mem_cons] at hmem
        rcases hmem with hmem | hmem
        · injection hmem with _ hmem
          exact hfirst (.inr ⟨t, by rw [← hmem]; rfl⟩)
        · exact hsplit ⟨f ++ [slash], by simp⟩ hmem
    · simp only [normal, hhead hdir q (slash :: dot :: q)]
    · have hdot : segments slash dot [dot] = [] := by
        rw [segments_of_not_mem (by simpa using hne)]
        simp
      simp only [normal, segments_append_slash]
      rw [List.append_assoc, segments_append_of_end hp, segments_append_of_end hp, hdot,
        List.append_nil, List.singleton_append]

theorem Inside.staysInside (hne : slash ≠ dot) {dir q : List α}
    (h : Inside slash dot dir (dir ++ q)) : StaysInside slash dot dir q := by
  obtain ⟨t, ht, hnormal⟩ := h
  simp only [normal, Prod.mk.injEq, decide_eq_decide] at hnormal
  obtain ⟨habs, hseg⟩ := hnormal
  by_cases hstart : q.head? = some slash
  · exact .inl hstart
  refine .inr ⟨?_, ?_⟩
  · rintro rfl
    exact hstart (by simpa using habs)
  by_cases hq : q = []
  · exact .inl hq
  by_cases hend : dir.getLast? = some slash
  · exact .inr (.inl hend)
  refine .inr (.inr ?_)
  obtain ⟨p, e, rfl, he, hp⟩ := exists_last slash dir
  obtain ⟨f, r, rfl, hf, hr⟩ := exists_first slash q
  have hene : e ≠ [] := by
    rintro rfl
    rcases hp with rfl | ⟨p', rfl⟩
    · simp only [List.nil_append, List.head?_cons, iff_true] at habs
      exact hstart habs
    · simp at hend
  have hfne : f ≠ [] := by
    rintro rfl
    rcases hr with rfl | ⟨t', rfl⟩
    · exact hq rfl
    · exact hstart rfl
  have hmerge : segments slash dot (e ++ f) = [e ++ f] := by
    rw [segments_of_not_mem (by simp [he, hf]), if_neg]
    rintro (hnil | hdot)
    · exact hene (List.append_eq_nil_iff.1 hnil).1
    · have hlen := congrArg List.length hdot
      have he' := List.length_pos_of_ne_nil hene
      have hf' := List.length_pos_of_ne_nil hfne
      rw [List.length_append, List.length_singleton] at hlen
      omega
  rw [segments_append_slash, List.append_assoc, segments_append_of_end hp,
    segments_append_of_end hp, List.append_assoc, List.append_cancel_left_eq, ← List.append_assoc,
    segments_append_of_start hr, hmerge, segments_of_not_mem he] at hseg
  by_cases hdot : e = [dot]
  · subst hdot
    constructor
    · rcases hp with rfl | ⟨p', rfl⟩
      · exact .inl rfl
      · exact .inr ⟨p', by simp⟩
    · intro hfirst
      have hfdot : f = [dot] := by
        rcases hfirst with hfirst | ⟨u, hu⟩
        · cases f with
          | nil => exact absurd rfl hfne
          | cons a f =>
            rw [List.cons_append, List.cons.injEq, List.append_eq_nil_iff] at hfirst
            rw [hfirst.1, hfirst.2.1]
        · rcases hr with rfl | ⟨t', rfl⟩
          · rw [List.append_nil] at hu
            rw [← hu] at hf
            simp at hf
          · have hsplit := congrArg (List.splitOn slash) hu
            rw [show [dot, slash] ++ u = [dot] ++ slash :: u from rfl,
              List.splitOn_append_cons_self, List.splitOn_append_cons_self,
              List.splitOn_eq_singleton hf,
              List.splitOn_eq_singleton (by simpa using hne)] at hsplit
            exact (List.cons.inj hsplit).1.symm
      subst hfdot
      -- the merged segment is `..`, which the suffix `t` does not have
      rw [if_pos (.inr rfl), List.nil_append] at hseg
      have hmem : [dot, dot] ∈ segments slash dot t := by
        rw [← hseg]
        exact List.mem_cons_self
      exact ht (List.mem_of_mem_filter hmem)
  · rw [if_neg (by simp [hene, hdot])] at hseg
    injection hseg with hsame
    exact absurd (List.append_right_eq_self.1 hsame) hfne

/-- **When a concatenation stays inside the directory.** -/
theorem inside_append_iff (hne : slash ≠ dot) {dir q : List α} (hdots : ¬ [dot, dot] <:+: q) :
    Inside slash dot dir (dir ++ q) ↔ StaysInside slash dot dir q :=
  ⟨Inside.staysInside hne, StaysInside.inside hne hdots⟩

end Path

end MiniServer
