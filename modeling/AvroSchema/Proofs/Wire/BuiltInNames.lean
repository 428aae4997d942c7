import AvroSchema.Proofs.Wire.RoundTrip

/-!
# Types Named Like Built-In Ones

Nothing keeps a record, a fixed type or an enumeration from having the name of a built-in type.
Where it is defined that does no harm, since a definition is an object and not a name. A reference is
a bare name, and the reader looks for a built-in meaning of a bare name first: the second `string`
of a document is the built-in type, whatever the first one was.

* `Record.roundTrips_iff_legible_and_unnested`: what that means for records whose namespaces put no
  full name into another one.
* `Record.roundTrips_iff_legible`: a record without namespaces comes back from its document exactly
  if no reference in it has a name that is taken in its place, or the name of a type inside the one
  that is referred to.
-/

namespace AvroSchema

namespace Record

section

variable {r : Record} {limit : Nat}

/-- Without namespaces, no full name is another one put into a namespace. -/
theorem namesUncaptured_of_namespaces (h : r.namespaces = []) : r.NamesUncaptured := by
  intro space hs
  rw [h] at hs
  cases hs

/-- If no full name is another one put into a namespace, a record comes back from its document
exactly if every reference in it means nothing else in its place and refers to a type that contains
no named type with its own full name. -/
theorem roundTrips_iff_legible_and_unnested (ha : r.Admissible) (hc : r.NamesUncaptured)
    (hl : 3 * r.nesting + 1 ≤ limit) :
    r.RoundTrips limit ↔ ∀ ref ∈ r.references, ref.Legible ∧
      ref.occurrence.name ∉ ref.occurrence.type.innerNames ref.occurrence.space := by
  rw [roundTrips_iff_legible_and_resolve ha hl, referencesResolve_iff]
  constructor
  · rintro ⟨hlegible, hr⟩ ref href
    refine ⟨hlegible ref href, fun hn => ?_⟩
    -- a type inside would have been read before, and the reference would resolve to that one
    obtain ⟨before, after, h⟩ := List.append_of_mem (referred_mem_marks href)
    exact not_resolves_of_nested h hn (resolve?_of_namesUncaptured h hc) (hr before _ after h)
  · intro h
    refine ⟨fun ref href => (h ref href).1, fun before o after he => ?_⟩
    -- every mark that refers to something belongs to a reference
    obtain ⟨ref, href, rfl⟩ := exists_mem_references (r := r) (o := o) (by simp [he])
    exact resolves_of_unnested he (h ref href).2 (resolve?_of_namesUncaptured he hc)

/-- A record without namespaces comes back from its document, up to the default values of nullable
fields, exactly if every reference in it means nothing else in its place and refers to a type that
contains no named type of the same name. A name means something else if it is that of a built-in
type or `map`, and alone as the type of a field that is not nullable also if it is `array` or
`record`. -/
theorem roundTrips_iff_legible (ha : r.Admissible) (hs : r.namespaces = [])
    (hl : 3 * r.nesting + 1 ≤ limit) :
    r.RoundTrips limit ↔ ∀ ref ∈ r.references, ref.Legible ∧
      ref.occurrence.name ∉ ref.occurrence.type.innerNames ref.occurrence.space :=
  roundTrips_iff_legible_and_unnested ha (namesUncaptured_of_namespaces hs) hl

end

/-- Crates with two stickers and their layouts. The types are named like an array and a record, but
are referred to where these names mean nothing else. -/
def crates : Record where
  name := "crates"
  fields := [
    { name := "front", type := .primitive (.fixed 4 "array"), nullable := false },
    { name := "back", type := .primitive (.fixed 4 "array") },
    { name := "layout", type := .primitive (.enum "record" ["rows", "columns"]),
      nullable := false },
    { name := "others", type := .array (.primitive (.enum "record" ["rows", "columns"])),
      nullable := false }]

/-- The crates come back. -/
theorem crates_roundTrips :
    crates.Admissible ∧ crates.namespaces = [] ∧ 3 * crates.nesting + 1 ≤ 64 ∧
      crates.RoundTrips 64 := by
  have ha : crates.Admissible := by decide
  have hs : crates.namespaces = [] := by decide
  have hl : 3 * crates.nesting + 1 ≤ 64 := by decide
  exact ⟨ha, hs, hl, (roundTrips_iff_legible ha hs hl).2 (by decide +kernel)⟩

/-- A report with two grades, whose type is named like a built-in one. -/
def report : Record where
  name := "r"
  fields := [
    { name := "a", type := .primitive (.enum "string" ["A"]) },
    { name := "b", type := .primitive (.enum "string" ["A"]) }]

/-- The second grade comes back as a text. -/
theorem report_not_roundTrips :
    report.Admissible ∧ report.namespaces = [] ∧ report.NamesUnnested ∧
      3 * report.nesting + 1 ≤ 64 ∧ ¬ report.RoundTrips 64 := by
  decide +kernel

end Record

end AvroSchema
