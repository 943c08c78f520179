import SexpEditing.Text.Basic

/-!
# Indentation settings

Which forms are indented in which way. Settings list the forms as they were given; a rule table
holds them in the shape in which rules look them up.

## Main definitions

* `OffsetTable`: offsets by form, in the order of the forms
* `IndentSettings`, `IndentSettings.standard`: settings, and those used where nothing is set
* `IndentTable`, `IndentSettings.table`: the rule table of settings
-/

namespace SexpEditing

/-- Offsets by form. -/
structure OffsetTable where
  entries : List (Text × Int)
  /-- The forms increase, so none stands there twice. -/
  increasing : entries.Pairwise fun a b => a.1.precedes b.1 = true
deriving DecidableEq, Repr

namespace OffsetTable

/-- The table without forms. -/
def empty : OffsetTable := ⟨[], .nil⟩

/-- Entries in which a form has an offset, in place of an earlier one. -/
def put (form : Text) (offset : Int) : List (Text × Int) → List (Text × Int)
  | [] => [(form, offset)]
  | (f, n) :: rest =>
    if f = form then (form, offset) :: rest
    else if form.precedes f then (form, offset) :: (f, n) :: rest
    else (f, n) :: put form offset rest

theorem eq_or_mem_of_mem_put {form : Text} {offset : Int} {entries : List (Text × Int)}
    {entry : Text × Int} (h : entry ∈ put form offset entries) :
    entry = (form, offset) ∨ entry ∈ entries := by
  induction entries with
  | nil => exact .inl (List.mem_singleton.mp h)
  | cons first rest ih =>
    obtain ⟨f, n⟩ := first
    rw [put] at h
    split at h
    · exact (List.mem_cons.mp h).imp_right (List.mem_cons_of_mem _)
    · split at h
      · exact List.mem_cons.mp h
      · rcases List.mem_cons.mp h with rfl | h
        · exact .inr List.mem_cons_self
        · exact (ih h).imp_right (List.mem_cons_of_mem _)

theorem increasing_put (form : Text) (offset : Int) {entries : List (Text × Int)}
    (h : entries.Pairwise fun a b => a.1.precedes b.1 = true) :
    (put form offset entries).Pairwise fun a b => a.1.precedes b.1 = true := by
  induction entries with
  | nil => exact List.pairwise_singleton _ _
  | cons first rest ih =>
    obtain ⟨f, n⟩ := first
    obtain ⟨hfirst, hrest⟩ := List.pairwise_cons.mp h
    rw [put]
    split
    · next hf => exact .cons (fun e he => hf ▸ hfirst e he) hrest
    · next hf =>
      split
      · next hbefore =>
        refine .cons (fun e he => ?_) h
        rcases List.mem_cons.mp he with rfl | he
        · exact hbefore
        · exact Text.precedes_trans hbefore (hfirst e he)
      · next hbefore =>
        -- the first entry stays the lowest one
        have hafter : f.precedes form = true := by
          cases hnot : f.precedes form with
          | true => rfl
          | false => exact absurd (Text.eq_of_not_precedes hnot (by simpa using hbefore)) hf
        refine .cons (fun e he => ?_) (ih hrest)
        rcases eq_or_mem_of_mem_put he with rfl | he
        · exact hafter
        · exact hfirst e he

/-- Sets the offset of a form, in place of an earlier one. -/
def insert (form : Text) (offset : Int) (table : OffsetTable) : OffsetTable :=
  ⟨put form offset table.entries, increasing_put form offset table.increasing⟩

/-- The table in which each form has the offset given last. -/
def ofList (entries : List (Text × Int)) : OffsetTable :=
  entries.foldl (fun table (form, offset) => insert form offset table) empty

/-- The offset of a form. -/
def find? (table : OffsetTable) (form : Text) : Option Int := table.entries.lookup form

end OffsetTable

/-- How forms are indented, as it was set. -/
structure IndentSettings where
  /-- Forms whose arguments line up under the first one, and the offset of that column from the
  head. -/
  alignForms : OffsetTable
  bindingForms : List Text
  blockForms : List Text
  definitionForms : List Text
  classForms : List Text
  wrappingForms : List Text
  /-- How the parameters begin that are indented by `keywordParamOffset`. -/
  keywordParamPrefix : Text
  keywordParamOffset : Int
  /-- How many siblings a walk visits before it gives up. -/
  maxSteps : Nat
  /-- How many closer lines above a closer line are re-aligned with it. -/
  maxDedentSteps : Nat
deriving DecidableEq, Repr

/-- The settings that hold where nothing is set. -/
def IndentSettings.standard : IndentSettings where
  alignForms :=
    let forms := ["and", "or", "not", "equal", "nequal", "eq", "neq", "eqv", "==", "!=", "<", "<=",
      ">", ">="]
    .ofList (forms.map fun form => (.ofString form, form.length + 1))
  bindingForms := ["let", "letseq", "letrec", "prog", "flet", "labels"].map .ofString
  blockForms := ["progn", "prog1", "prog2"].map .ofString
  definitionForms := ["defun", "defmacro", "defmethod", "procedure", "mprocedure", "nprocedure",
    "globalProc"].map .ofString
  classForms := ["defclass"].map .ofString
  wrappingForms := ["if", "when", "unless", "while", "foreach", "for", "case", "caseq", "errset",
    "unwindProtect"].map .ofString
  keywordParamPrefix := .ofString "@"
  keywordParamOffset := 6
  maxSteps := 10000
  maxDedentSteps := 200

/-- How forms are indented, as rules look it up. Each list of forms is a set: it holds no form
twice. -/
structure IndentTable where
  alignForms : OffsetTable
  bindingForms : List Text
  blockForms : List Text
  definitionForms : List Text
  classForms : List Text
  wrappingForms : List Text
  keywordParamPrefix : Text
  keywordParamOffset : Int
  maxSteps : Nat
  maxDedentSteps : Nat
deriving DecidableEq, Repr

/-- The rule table of settings. A form that was given several times stands where it was given
first. -/
def IndentSettings.table (s : IndentSettings) : IndentTable where
  alignForms := s.alignForms
  bindingForms := s.bindingForms.eraseDups
  blockForms := s.blockForms.eraseDups
  definitionForms := s.definitionForms.eraseDups
  classForms := s.classForms.eraseDups
  wrappingForms := s.wrappingForms.eraseDups
  keywordParamPrefix := s.keywordParamPrefix
  keywordParamOffset := s.keywordParamOffset
  maxSteps := s.maxSteps
  maxDedentSteps := s.maxDedentSteps

end SexpEditing
