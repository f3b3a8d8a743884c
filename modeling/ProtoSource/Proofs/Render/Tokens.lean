import ProtoSource.Proofs.Pool.Words
import ProtoSource.Proofs.Render.Printing

/-!
# Type tokens

The type of a field is written as one token: the keyword of a scalar type, or a
reference.  A compiler reads a keyword as the scalar type wherever it stands, and looks
up any other token from the scope.  The token of a scalar type is read as the type.
That of a message or an enum is too, unless the reference is the lone name of a type
that is named like a scalar type: it is shortened to the keyword as if it were looked up.
-/

namespace ProtoSource.Render

open ProtoSource.Descriptor
open ProtoSource.Pool
open ProtoSource.Success
open ProtoSource.Text

/-- What a compiler takes a type token for. -/
inductive TypeReading where
  | scalar (type : FieldType)
  | named (fullName : String)
  deriving DecidableEq, Repr

/-- The scalar type that a word is the keyword of. -/
def scalarOf? (word : String) : Option FieldType :=
  FieldType.all.find? fun type => type.keyword != "" && type.keyword == word

/-- How a compiler that sees `files` reads a type token in `scope`: keywords come before
names. -/
def readType (files : List File) (scope token : String) : Option TypeReading :=
  match scalarOf? token with
  | some type => some (.scalar type)
  | none => (lookUp files scope token).map .named

theorem scalarOf?_keyword {type : FieldType} (htype : type.keyword ≠ "") :
    scalarOf? type.keyword = some type := by
  revert htype
  cases type <;> decide

theorem scalarOf?_eq_some {word : String} {type : FieldType} :
    scalarOf? word = some type ↔ type.keyword ≠ "" ∧ word = type.keyword := by
  constructor
  · intro hfind
    have hfound := List.find?_some hfind
    rw [Bool.and_eq_true, bne_iff_ne, beq_iff_eq] at hfound
    exact ⟨hfound.1, hfound.2.symm⟩
  · rintro ⟨htype, rfl⟩
    exact scalarOf?_keyword htype

theorem notMem_typeKeyword (type : FieldType) : '.' ∉ type.keyword.toList := by
  cases type <;> decide

/-- A type at the top of the package is written relative to it, if that leads there. -/
theorem reference_join {scope : Scope} {name : String} (hpackage : scope.package ≠ "")
    (hresolve : scope.resolve name = some (Name.join scope.package name)) :
    scope.reference ("." ++ Name.join scope.package name) = name := by
  have hbelow : Name.below? scope.package (Name.join scope.package name) = some name :=
    Name.below?_eq_some.2 (Name.toList_join hpackage name)
  simp [Scope.reference, Scope.spellings, hpackage, hbelow, hresolve]

/-- A type at the root is written by its name, if that leads there. -/
theorem reference_root {scope : Scope} {name : String} (hname : '.' ∉ name.toList)
    (hresolve : scope.resolve name = some name) : scope.reference ("." ++ name) = name := by
  have hbelow : Name.below? scope.package name = none := by
    rw [Option.eq_none_iff_forall_ne_some]
    intro rest hrest
    rw [Name.below?_eq_some.1 hrest] at hname
    simp at hname
  simp [Scope.reference, Scope.spellings, hbelow, hresolve]

/-- A type is written by a lone name if it has that name at the root or at the top of the
package, and the name leads to it. -/
theorem reference_eq_iff {scope : Scope} {fullName name : String} (hname : '.' ∉ name.toList) :
    scope.reference ("." ++ fullName) = name ↔
      (fullName = name ∨ fullName = Name.join scope.package name) ∧
        scope.resolve name = some fullName := by
  constructor
  · intro hreference
    rw [Scope.reference, Name.absolute?_dot] at hreference
    cases hfind : (scope.spellings fullName).find? fun spelling =>
        scope.resolve spelling == some fullName with
    | none =>
        -- The full spelling has a dot.
        obtain rfl : "." ++ fullName = name := by simpa [hfind] using hreference
        simp at hname
    | some spelling =>
        obtain rfl : spelling = name := by simpa [hfind] using hreference
        refine ⟨?_, by simpa using List.find?_some hfind⟩
        have hmem := List.mem_of_find?_eq_some hfind
        rw [Scope.spellings, List.mem_append, List.mem_singleton, Option.mem_toList] at hmem
        obtain hrelative | rfl := hmem
        · split_ifs at hrelative with hempty
          have hpackage : scope.package ≠ "" := by simpa using hempty
          exact Or.inr (String.toList_injective
            ((Name.below?_eq_some.1 hrelative).trans (Name.toList_join hpackage spelling).symm))
        · exact Or.inl rfl
  · rintro ⟨rfl | rfl, hresolve⟩
    · exact reference_root hname hresolve
    · by_cases hpackage : scope.package = ""
      · rw [hpackage, Name.join_empty] at hresolve ⊢
        exact reference_root hname hresolve
      · exact reference_join hpackage hresolve

/-! ## Tokens -/

/-- The reference to a type is the keyword of a scalar type. -/
structure TakenFor (scope : Scope) (fullName : String) (type : FieldType) : Prop where
  keyword : type.keyword ≠ ""
  declared : fullName = type.keyword ∨ fullName = Name.join scope.package type.keyword
  leads : scope.resolve type.keyword = some fullName

theorem scalarOf?_reference {scope : Scope} {fullName : String} {type : FieldType} :
    scalarOf? (scope.reference ("." ++ fullName)) = some type ↔ TakenFor scope fullName type := by
  rw [scalarOf?_eq_some, reference_eq_iff (notMem_typeKeyword type)]
  constructor
  · rintro ⟨hkeyword, hdeclared, hleads⟩
    exact ⟨hkeyword, hdeclared, hleads⟩
  · intro htaken
    exact ⟨htaken.keyword, htaken.declared, htaken.leads⟩

/-- The token of a scalar type is read as the type.  The token of a message or an enum is
read as what it is, unless it is written as the keyword of a scalar type, which it is
read as then. -/
theorem readType_typeToken (files : List File) (hfiles : ∀ file ∈ files, WellNamed file)
    (package : String) (path : List String) (field : Field) (type : FieldType)
    (htype : field.type? = some type) :
    let scope := path.foldl Scope.nested (Scope.ofPackage files package)
    (type.keyword ≠ "" → ∃ token, typeToken scope field = .ok token ∧
      readType files scope.name token = some (.scalar type)) ∧
    ∀ fullName, type.keyword = "" → isType files fullName = true →
      field.typeName = "." ++ fullName → ∃ token, typeToken scope field = .ok token ∧
        ((∀ scalar, ¬TakenFor scope fullName scalar) →
          readType files scope.name token = some (.named fullName)) ∧
        ∀ scalar, TakenFor scope fullName scalar → token = scalar.keyword ∧
          readType files scope.name token = some (.scalar scalar) := by
  intro scope
  refine ⟨fun hkeyword => ?_, fun fullName hkeyword hisType hname => ?_⟩
  · refine ⟨type.keyword, typeToken_eq_ok.2 (Or.inl ⟨type, htype, hkeyword, rfl⟩), ?_⟩
    rw [readType, scalarOf?_keyword hkeyword]
  · have hscope : scope.files = files := files_foldl_nested (Scope.ofPackage files package) path
    obtain ⟨file, hfile, hmem⟩ := isType_iff.1 hisType
    have hlookUp : lookUp files scope.name (scope.reference ("." ++ fullName)) = some fullName :=
      lookUp_reference (hscope.symm ▸ hfiles) (hscope.symm ▸ List.Subset.refl files) hfile hmem
    refine ⟨scope.reference ("." ++ fullName), ?_, fun hnone => ?_, fun scalar htaken => ?_⟩
    · rw [typeToken_eq_ok, htype, hname]
      exact Or.inr ⟨by simpa using hkeyword, by simp, rfl⟩
    · have hscalar : scalarOf? (scope.reference ("." ++ fullName)) = none := by
        rw [Option.eq_none_iff_forall_ne_some]
        exact fun scalar hscalar => hnone scalar (scalarOf?_reference.1 hscalar)
      rw [readType, hscalar, hlookUp, Option.map_some]
    · have hscalar := scalarOf?_reference.2 htaken
      exact ⟨(scalarOf?_eq_some.1 hscalar).2, by rw [readType, hscalar]⟩

def bytesField : Field where
  name? := some "data"
  number? := some 2
  typeCode? := some FieldType.message.code
  typeName? := some ".demo.M.bytes"

/-- Messages named like scalar types, one at the top of the package and one in the message
whose fields refer to them. -/
def keywordFile : File where
  name? := some "k.proto"
  package? := some "demo"
  messages :=
    [.mk { name? := some "string" } [],
     .mk { name? := some "M"
           fields :=
             [{ name? := some "text", number? := some 1, typeCode? := some FieldType.message.code
                typeName? := some ".demo.string" }, bytesField] }
       [.mk { name? := some "bytes" } []]]
  dialect? := some "proto3"

/-- The message `bytes` in `M` is written with the name of `M` before its own. -/
theorem readType_typeToken_bytesField :
    let scope := (Scope.ofPackage [keywordFile] "demo").nested "M"
    typeToken scope bytesField = .ok "M.bytes" ∧
      readType [keywordFile] scope.name "M.bytes" = some (.named "demo.M.bytes") := by
  intro scope
  have hwritten : typeToken scope bytesField = .ok "M.bytes" :=
    toOption_eq_some.1 (by decide)
  obtain ⟨token, htoken, hread, -⟩ := (readType_typeToken [keywordFile] (by decide) "demo"
    ["M"] bytesField .message (by decide)).2 "demo.M.bytes" (by decide) (by decide) (by decide)
  obtain rfl : token = "M.bytes" := Except.ok.inj (htoken.symm.trans hwritten)
  refine ⟨hwritten, hread fun scalar htaken => ?_⟩
  have hother : "demo.M.bytes" ≠ scalar.keyword ∧
      "demo.M.bytes" ≠ Name.join "demo" scalar.keyword := by
    cases scalar <;> decide
  exact htaken.declared.elim hother.1 hother.2

/-- The message `string` at the top of the package is written as the keyword. -/
theorem string_read_as_scalar : ∃ pool file message field,
    Pool.ofDialects [(.proto3, keywordFile)] = .ok pool ∧ (∀ file ∈ pool.files, WellNamed file) ∧
      file ∈ pool.files ∧ ("demo.M", message) ∈ messagesOf file ∧ field ∈ message.body.fields ∧
      field.type? = some .message ∧ field.typeName = ".demo.string" ∧
      isType pool.files "demo.string" = true ∧
      typeToken ⟨pool.files, "demo", "demo.M"⟩ field = .ok "string" ∧
      readType pool.files "demo.M" "string" = some (.scalar .string) := by
  have hcomputed : (Pool.ofDialects [(.proto3, keywordFile)]).toOption.map (fun pool => decide (
      (∀ file ∈ pool.files, WellNamed file) ∧ ∃ file ∈ pool.files, ∃ entry ∈ messagesOf file,
        entry.1 = "demo.M" ∧ ∃ field ∈ entry.2.body.fields, field.type? = some .message ∧
          field.typeName = ".demo.string" ∧ isType pool.files "demo.string" = true ∧
          (typeToken ⟨pool.files, "demo", "demo.M"⟩ field).toOption = some "string" ∧
          readType pool.files "demo.M" "string" = some (.scalar .string))) = some true := by
    decide
  obtain ⟨pool, hpool, hfound⟩ := exists_ok_of_map_eq_some hcomputed
  obtain ⟨hnames, file, hfile, ⟨_, message⟩, hmessage, rfl, field, hfield, htype, hname,
    hisType, htoken, hread⟩ := of_decide_eq_true hfound
  exact ⟨pool, file, message, field, hpool, hnames, hfile, hmessage, hfield, htype, hname, hisType,
    toOption_eq_some.1 htoken, hread⟩

end ProtoSource.Render
