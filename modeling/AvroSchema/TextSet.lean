/-!
# Sets of Texts

A set of texts is listed in increasing order, so equal sets are equal lists.

* `TextSet.mem_insert`, `TextSet.mem_erase`: what a set holds after a change.
* `TextSet.ofList_toList`: a set is the set of the texts that it lists.
-/

namespace AvroSchema

/-- A set of texts, listed in increasing order. -/
structure TextSet where
  /-- The texts. -/
  toList : List String := []
  /-- Every text is smaller than the texts after it. -/
  sorted : toList.Pairwise (· < ·) := by simp
deriving DecidableEq

namespace TextSet

/-- The set without texts. -/
def empty : TextSet := {}

theorem ext {s t : TextSet} (h : s.toList = t.toList) : s = t := by
  cases s; cases t; cases h; rfl

instance : Membership String TextSet := ⟨fun s t => t ∈ s.toList⟩

/-- The list with a text put at its place, unless it is there. -/
def insertText (t : String) : List String → List String
  | [] => [t]
  | u :: rest =>
    if t = u then u :: rest
    else if t < u then t :: u :: rest
    else u :: insertText t rest

theorem mem_insertText {t u : String} {l : List String} :
    u ∈ insertText t l ↔ u = t ∨ u ∈ l := by
  induction l with
  | nil => simp [insertText]
  | cons v rest ih =>
    unfold insertText
    split
    · next h => subst h; simp
    · split
      · simp
      · simp only [List.mem_cons, ih]
        exact or_left_comm

theorem pairwise_insertText {t : String} {l : List String} (h : l.Pairwise (· < ·)) :
    (insertText t l).Pairwise (· < ·) := by
  induction l with
  | nil => simp [insertText]
  | cons v rest ih =>
    obtain ⟨hv, hr⟩ := List.pairwise_cons.1 h
    unfold insertText
    split
    · exact h
    · next hne =>
      split
      · next hlt =>
        refine List.pairwise_cons.2 ⟨fun u hu => ?_, h⟩
        rcases List.mem_cons.1 hu with rfl | hu
        · exact hlt
        · exact String.lt_trans hlt (hv u hu)
      · next hge =>
        refine List.pairwise_cons.2 ⟨fun u hu => ?_, ih hr⟩
        rcases mem_insertText.1 hu with rfl | hu
        · exact Std.lt_of_le_of_ne (String.not_lt.1 hge) (Ne.symm hne)
        · exact hv u hu

/-- The set with a further text. -/
def insert (s : TextSet) (t : String) : TextSet :=
  ⟨insertText t s.toList, pairwise_insertText s.sorted⟩

/-- The set without a text. -/
def erase (s : TextSet) (t : String) : TextSet :=
  ⟨s.toList.filter (· != t), s.sorted.filter _⟩

/-- The set of the texts of a list. -/
def ofList (texts : List String) : TextSet := texts.foldl insert empty

@[simp]
theorem mem_insert {s : TextSet} {t u : String} : u ∈ s.insert t ↔ u = t ∨ u ∈ s :=
  mem_insertText

@[simp]
theorem mem_erase {s : TextSet} {t u : String} : u ∈ s.erase t ↔ u ∈ s ∧ u ≠ t := by
  change u ∈ s.toList.filter (· != t) ↔ u ∈ s.toList ∧ u ≠ t
  simp

theorem insertText_of_lt {t : String} {l : List String} (h : ∀ u ∈ l, u < t) :
    insertText t l = l ++ [t] := by
  induction l with
  | nil => rfl
  | cons v rest ih =>
    have hv : v < t := h v (by simp)
    have hne : t ≠ v := fun e => String.lt_irrefl v (e ▸ hv)
    have hge : ¬ t < v := fun e => String.lt_irrefl v (String.lt_trans hv e)
    simp [insertText, hne, hge, ih fun u hu => h u (by simp [hu])]

theorem toList_foldl_insert (s : TextSet) (l : List String)
    (h : (s.toList ++ l).Pairwise (· < ·)) : (l.foldl insert s).toList = s.toList ++ l := by
  induction l generalizing s with
  | nil => simp
  | cons t rest ih =>
    have hs : (s.insert t).toList = s.toList ++ [t] :=
      insertText_of_lt fun u hu => (List.pairwise_append.1 h).2.2 u hu t (by simp)
    have := ih (s.insert t) (by simpa [hs] using h)
    simpa [hs] using this

@[simp]
theorem ofList_toList (s : TextSet) : ofList s.toList = s := by
  have h : (ofList s.toList).toList = s.toList := toList_foldl_insert empty s.toList s.sorted
  exact ext h

end TextSet

end AvroSchema
