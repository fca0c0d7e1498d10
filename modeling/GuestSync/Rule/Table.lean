/-
# GuestSync.Rule.Table -- which files are taken along, and how

A rule says whether a file is text, to be re-encoded, or binary, to be copied,
and which type and creator it gets. A table holds at most one rule for a suffix
and keeps its suffixes in the order of their characters, so two tables with the
same rules are equal whatever the order of their insertions.
-/
import GuestSync.Rule.Suffix
import GuestSync.FinderInfo

namespace GuestSync

/-- How the content of a file is taken to the other side. -/
inductive FileKind where
  | text
  | binary
  deriving DecidableEq, Repr

/-- What is done with the files of one suffix. -/
structure Rule where
  kind : FileKind
  info : FinderInfo
  deriving DecidableEq, Repr

/-- Rules by suffix, in the order of the suffixes. -/
structure RuleTable where
  rules : List (String × Rule)
  ordered : rules.Pairwise (·.1 < ·.1)
  deriving DecidableEq, Repr

namespace RuleTable

/-- The table without rules. -/
def empty : RuleTable := ⟨[], .nil⟩

/-- A rule put in its place among rules in the order of their suffixes. -/
def place (suffix : String) (rule : Rule) : List (String × Rule) → List (String × Rule)
  | [] => [(suffix, rule)]
  | (s, r) :: rest =>
    if suffix = s then (suffix, rule) :: rest
    else if suffix < s then (suffix, rule) :: (s, r) :: rest
    else (s, r) :: place suffix rule rest

theorem mem_place {suffix : String} {rule : Rule} {e : String × Rule} :
    ∀ {rules : List (String × Rule)}, e ∈ place suffix rule rules → e.1 = suffix ∨ e ∈ rules
  | [], h => by simp_all [place]
  | (s, r) :: rest, h => by
    unfold place at h
    split at h
    · next hs => subst hs; rcases List.mem_cons.mp h with rfl | h <;> simp_all
    · split at h
      · rcases List.mem_cons.mp h with rfl | h <;> simp_all
      · rcases List.mem_cons.mp h with rfl | h
        · simp
        · rcases mem_place h with h | h <;> simp [h]

theorem place_ordered (suffix : String) (rule : Rule) :
    ∀ {rules : List (String × Rule)}, rules.Pairwise (·.1 < ·.1) →
      (place suffix rule rules).Pairwise (·.1 < ·.1)
  | [], _ => by simp [place]
  | (s, r) :: rest, h => by
    obtain ⟨hhead, htail⟩ := List.pairwise_cons.mp h
    unfold place
    split
    · next hs => exact List.pairwise_cons.mpr ⟨by rw [hs]; exact hhead, htail⟩
    · next hs =>
      split
      · next hlt =>
        refine List.pairwise_cons.mpr ⟨fun e he => ?_, h⟩
        rcases List.mem_cons.mp he with rfl | he
        · exact hlt
        · exact String.lt_trans hlt (hhead e he)
      · next hge =>
        refine List.pairwise_cons.mpr ⟨fun e he => ?_, place_ordered suffix rule htail⟩
        rcases mem_place he with he | he
        · rw [he]
          exact Std.lt_of_le_of_ne (String.not_lt.mp hge) (Ne.symm hs)
        · exact hhead e he

/-- The table with a rule for a suffix, in place of any that it had. -/
def insert (t : RuleTable) (suffix : String) (rule : Rule) : RuleTable :=
  ⟨place suffix rule t.rules, place_ordered suffix rule t.ordered⟩

/-- The rule for a suffix. -/
def get? (t : RuleTable) (suffix : String) : Option Rule := t.rules.lookup suffix

/-- The rule for a file name. -/
def forName? (t : RuleTable) (name : String) : Option Rule :=
  (Suffix.ofName name).bind t.get?

/-- Whether a file name has a rule. -/
def recognizes (t : RuleTable) (name : String) : Bool := (t.forName? name).isSome

/-- The number of suffixes. -/
def size (t : RuleTable) : Nat := t.rules.length

/-- The suffixes in order. -/
def suffixes (t : RuleTable) : List String := t.rules.map (·.1)

private theorem lookup_cons_rule (s : String) (r : Rule) (rest : List (String × Rule)) (key : String) :
    ((s, r) :: rest).lookup key = if key = s then some r else rest.lookup key := by
  by_cases h : key = s
  · simp [h]
  · simp [List.lookup_cons, h, beq_eq_false_iff_ne.mpr h]

private theorem lookup_place (suffix : String) (rule : Rule) (key : String) :
    ∀ rules : List (String × Rule),
      (place suffix rule rules).lookup key = if key = suffix then some rule else rules.lookup key
  | [] => lookup_cons_rule suffix rule [] key
  | (s, r) :: rest => by
    have ih := lookup_place suffix rule key rest
    unfold place
    split
    · next hs =>
      subst hs
      simp only [lookup_cons_rule]
      split <;> rfl
    · next hs =>
      split
      · simp only [lookup_cons_rule]
      · simp only [lookup_cons_rule, ih]
        by_cases h : key = suffix
        · simp [h, hs]
        · simp [h]

/-- An insertion changes what is found for its suffix alone. -/
theorem get?_insert (t : RuleTable) (suffix : String) (rule : Rule) (key : String) :
    (t.insert suffix rule).get? key = if key = suffix then some rule else t.get? key :=
  lookup_place suffix rule key t.rules

/-! ## The standard rules -/

/-- Source text: type `TEXT`, and the creator of the editor BBEdit. -/
def sourceText : Rule :=
  ⟨.text, FourCode.ofChars 'T' 'E' 'X' 'T', FourCode.ofChars 'R' '*' 'c' 'h'⟩

/-- A CodeWarrior project: type `MMPr`, creator `CWIE`, copied octet by octet. -/
def project : Rule :=
  ⟨.binary, FourCode.ofChars 'M' 'M' 'P' 'r', FourCode.ofChars 'C' 'W' 'I' 'E'⟩

/-- C, header and Rez sources as text, and projects as binary files. -/
def standard : RuleTable :=
  (((empty.insert ".c" sourceText).insert ".h" sourceText).insert ".r" sourceText).insert
    ".mcp" project

end RuleTable

end GuestSync
