import ProtoSource.Proofs.Pool.Words
import ProtoSource.Proofs.Render.Printing

/-!
# Map fields

A repeated field of messages is printed as a map if the message around it has an entry
named like the last component of the field's type.  An entry that is the type of the
field is found so, since no two messages of a pool share a full name.  But a type of
the same name that is declared elsewhere is taken for the entry as well.
-/

namespace ProtoSource.Render

open ProtoSource.Descriptor
open ProtoSource.Pool
open ProtoSource.Success
open ProtoSource.Text

/-- The line of a map: key and value have the types of fields 1 and 2 of the entry. -/
def IsMapLine (scope : Scope) (entry : Message) (field : Field) (line : String) : Prop :=
  ∃ key value keyToken valueToken, entryField entry 1 = .ok key ∧ entryField entry 2 = .ok value ∧
    typeToken scope key = .ok keyToken ∧ typeToken scope value = .ok valueToken ∧
    "map<" ++ keyToken ++ ", " ++ valueToken ++ ">" ++ fieldTail field = line

/-- The field is repeated and of the message `target`. -/
structure Repeats (field : Field) (target : String) : Prop where
  name : field.name ≠ ""
  label : field.label = .repeated
  type : field.type? = some .message
  proto3Optional : field.proto3Optional = false
  typeName : field.typeName = "." ++ target

instance (field : Field) (target : String) : Decidable (Repeats field target) :=
  decidable_of_iff
    (field.name ≠ "" ∧ field.label = .repeated ∧ field.type? = some .message ∧
      field.proto3Optional = false ∧ field.typeName = "." ++ target)
    ⟨fun ⟨hname, hlabel, htype, hoptional, htarget⟩ => ⟨hname, hlabel, htype, hoptional, htarget⟩,
      fun hfield => ⟨hfield.name, hfield.label, hfield.type, hfield.proto3Optional,
        hfield.typeName⟩⟩

/-! ## Entries -/

section Entries

variable {message entry : Message} {scope : Scope} {field : Field} {target : String}

/-- An entry is found by the last component of the type if no other message beside it
has its name. -/
theorem fieldLine_eq_ok_of_namesake (hfield : Repeats field target)
    (hentry : entry ∈ message.nested)
    (hmap : entry.isMapEntry = true) (hlast : entry.name = Name.last target)
    (hunique : ∀ other ∈ message.nested, other.name = entry.name → other = entry) (line : String) :
    fieldLine message scope field = .ok line ↔ IsMapLine scope entry field line := by
  have hfound : mapEntry? message field = some entry := by
    unfold mapEntry?
    rw [if_pos ⟨hfield.label, hfield.type⟩, hfield.typeName, Name.last_dot]
    cases hfind : message.nested.find? fun nested =>
        nested.isMapEntry && nested.name == Name.last target with
    | none => simpa [hmap, hlast] using List.find?_eq_none.1 hfind entry hentry
    | some other =>
        have hother : other.isMapEntry = true ∧ other.name = Name.last target := by
          simpa using List.find?_some hfind
        rw [hunique other (List.mem_of_find?_eq_some hfind) (hother.2.trans hlast.symm)]
  simp only [fieldLine_eq_ok, hfound, IsMapLine, Option.some.injEq, exists_eq_left', reduceCtorEq,
    false_and, or_false, hfield.name, ne_eq, not_false_eq_true, true_and]

/-- Without an entry of the name of its type a field is printed as repeated. -/
theorem fieldLine_of_no_namesake (hfield : Repeats field target)
    (hnone : ∀ entry ∈ message.nested, entry.isMapEntry = true → entry.name ≠ Name.last target) :
    fieldLine message scope field =
      .ok ("repeated " ++ scope.reference ("." ++ target) ++ fieldTail field) := by
  have hmissing : mapEntry? message field = none := by
    unfold mapEntry?
    rw [if_pos ⟨hfield.label, hfield.type⟩, hfield.typeName, Name.last_dot, List.find?_eq_none]
    simpa using hnone
  have htoken : typeToken scope field = .ok (scope.reference ("." ++ target)) := by
    rw [typeToken_eq_ok, hfield.type, hfield.typeName]
    exact Or.inr ⟨by simp [FieldType.keyword], by simp, rfl⟩
  have hword : labelText field = "repeated " := by
    simp [labelText, labelWord, hfield.proto3Optional, hfield.label, Label.keyword]
  rw [← hword]
  exact fieldLine_eq_ok.2 ⟨hfield.name, Or.inr ⟨hmissing, _, htoken, rfl⟩⟩

end Entries

/-! ## Fields of a pool -/

/-- A repeated field of a message type is printed as a map if the type is an entry beside
it, and as repeated, with a reference that leads to the type, if no entry beside it has
the last name of the type.  It is printed as a map too if there is an entry of that name
which is not its type. -/
theorem fieldLine_of_repeats {files : List (Dialect × File)} {pool : Pool}
    (hpool : Pool.ofDialects files = .ok pool) (hnames : ∀ file ∈ pool.files, WellNamed file)
    {file : File} (hfile : file ∈ pool.files) {fullName : String} {message : Message}
    (hmessage : (fullName, message) ∈ messagesOf file) {field : Field}
    (hfield : field ∈ message.body.fields) {target : String} (hrepeats : Repeats field target) :
    let scope : Scope := ⟨pool.files, file.package, fullName⟩
    (∀ entry ∈ message.nested, entry.isMapEntry = true → target = Name.join fullName entry.name →
      ∀ line, fieldLine message scope field = .ok line ↔ IsMapLine scope entry field line) ∧
    ((∀ entry ∈ message.nested, entry.isMapEntry = true → entry.name ≠ Name.last target) →
      fieldLine message scope field =
          .ok ("repeated " ++ scope.reference ("." ++ target) ++ fieldTail field) ∧
        lookUp pool.files fullName (scope.reference ("." ++ target)) = some target) ∧
    ∀ entry ∈ message.nested, entry.isMapEntry = true → entry.name = Name.last target →
      target ≠ Name.join fullName entry.name →
      ∀ line, fieldLine message scope field = .ok line ↔ IsMapLine scope entry field line := by
  intro scope
  obtain ⟨symbols, resolved, hbuilds⟩ := exists_builds hpool
  have hnamesake : ∀ entry ∈ message.nested, entry.isMapEntry = true →
      entry.name = Name.last target → ∀ line,
        fieldLine message scope field = .ok line ↔ IsMapLine scope entry field line := by
    intro entry hentry hmap hlast
    refine fieldLine_eq_ok_of_namesake hrepeats hentry hmap hlast fun other hother hsame => ?_
    have hmem := mem_messagesIn_of_nested hmessage hother
    rw [hsame] at hmem
    exact hbuilds.eq_of_mem_messagesOf hfile hmem (mem_messagesIn_of_nested hmessage hentry)
  refine ⟨fun entry hentry hmap hown => hnamesake entry hentry hmap ?_,
    fun hnone => ⟨fieldLine_of_no_namesake hrepeats hnone, ?_⟩,
    fun entry hentry hmap hlast _ => hnamesake entry hentry hmap hlast⟩
  · have hidentifier : Name.IsIdentifier entry.name :=
      (hnames file hfile).messages _ (mem_messagesIn_of_nested hmessage hentry)
    rw [hown, Name.last_join fullName hidentifier.2]
  · have hrefers := (hbuilds.refersByNames hfile).fields _ hmessage field hfield
    rw [hrepeats.typeName] at hrefers
    obtain hempty | hpoints := hrefers
    · simp at hempty
    · exact hbuilds.lookUp_reference_of_pointsAt hnames (fun _ htype => htype) hpoints rfl

/-- The message `M` has a map `foo`, and its field `items` is of a message of another one
that has the name of the map's entry. -/
def namesakeFile : File where
  name? := some "m.proto"
  package? := some "demo"
  messages :=
    [.mk { name? := some "Other" } [.mk { name? := some "FooEntry" } []],
     .mk { name? := some "M"
           fields :=
             [{ name? := some "items", number? := some 1, labelCode? := some 3, typeCode? := some 11
                typeName? := some ".demo.Other.FooEntry" },
              { name? := some "foo", number? := some 2, labelCode? := some 3, typeCode? := some 11
                typeName? := some ".demo.M.FooEntry" }] }
       [.mk { name? := some "FooEntry"
              fields :=
                [{ name? := some "key", number? := some 1, typeCode? := some 9 },
                 { name? := some "value", number? := some 2, typeCode? := some 9 }]
              options? := some { settings := [(mapEntryNumber, .flag true)], payload := [56, 1] } }
         []]]
  dialect? := some "proto3"

/-- What is printed for a field of `M` that is repeated and of the message `target`. -/
theorem exists_fieldLine_namesakeFile (target line : String)
    (hcomputed : (Pool.ofDialects [(.proto3, namesakeFile)]).toOption.map (fun pool => decide (
      (∀ file ∈ pool.files, WellNamed file) ∧ ∃ file ∈ pool.files, ∃ entry ∈ messagesOf file,
        entry.1 = "demo.M" ∧ entry.2.nested.map Message.name = ["FooEntry"] ∧
          (∀ nested ∈ entry.2.nested, nested.isMapEntry = true) ∧
          ∃ field ∈ entry.2.body.fields, Repeats field target ∧
            (fieldLine entry.2 ⟨pool.files, file.package, "demo.M"⟩ field).toOption = some line)) =
      some true) :
    ∃ pool file message field, Pool.ofDialects [(.proto3, namesakeFile)] = .ok pool ∧
      (∀ file ∈ pool.files, WellNamed file) ∧ file ∈ pool.files ∧
      ("demo.M", message) ∈ messagesOf file ∧ message.nested.map Message.name = ["FooEntry"] ∧
      (∀ nested ∈ message.nested, nested.isMapEntry = true) ∧
      field ∈ message.body.fields ∧ Repeats field target ∧
      fieldLine message ⟨pool.files, file.package, "demo.M"⟩ field = .ok line := by
  obtain ⟨pool, hpool, hfound⟩ := exists_ok_of_map_eq_some hcomputed
  obtain ⟨hnames, file, hfile, ⟨_, message⟩, hmessage, rfl, hnested, hmap, field, hfield, hrepeats,
      hline⟩ :=
    of_decide_eq_true hfound
  exact ⟨pool, file, message, field, hpool, hnames, hfile, hmessage, hnested, hmap, hfield,
    hrepeats, toOption_eq_some.1 hline⟩

theorem fieldLine_of_repeats_namesakeFile : ∃ pool file message field entry,
    Pool.ofDialects [(.proto3, namesakeFile)] = .ok pool ∧ file ∈ pool.files ∧
      ("demo.M", message) ∈ messagesOf file ∧ field ∈ message.body.fields ∧
      Repeats field "demo.M.FooEntry" ∧ entry ∈ message.nested ∧ entry.isMapEntry = true ∧
      "demo.M.FooEntry" = Name.join "demo.M" entry.name ∧
      IsMapLine ⟨pool.files, file.package, "demo.M"⟩ entry field
        "map<string, string> foo = 2;" := by
  obtain ⟨pool, file, message, field, hpool, hnames, hfile, hmessage, hnested, hmap, hfield,
    hrepeats, hline⟩ :=
      exists_fieldLine_namesakeFile "demo.M.FooEntry" "map<string, string> foo = 2;"
      (by decide)
  obtain ⟨entry, hentry, hname⟩ := List.mem_map.1 (hnested ▸ List.mem_singleton_self "FooEntry")
  have hown : "demo.M.FooEntry" = Name.join "demo.M" entry.name := by rw [hname]; decide
  have hprinted := fieldLine_of_repeats hpool hnames hfile hmessage hfield hrepeats
  exact ⟨pool, file, message, field, entry, hpool, hfile, hmessage, hfield, hrepeats, hentry,
    hmap entry hentry, hown, (hprinted.1 entry hentry (hmap entry hentry) hown _).1 hline⟩

/-- The field `items` is printed as a map though its type is no entry of `M`. -/
theorem items_printed_as_map : ∃ pool file message field,
    Pool.ofDialects [(.proto3, namesakeFile)] = .ok pool ∧
      (∀ file ∈ pool.files, WellNamed file) ∧ file ∈ pool.files ∧
      ("demo.M", message) ∈ messagesOf file ∧ field ∈ message.body.fields ∧
      Repeats field "demo.Other.FooEntry" ∧
      (∀ entry ∈ message.nested, "demo.Other.FooEntry" ≠ Name.join "demo.M" entry.name) ∧
      fieldLine message ⟨pool.files, file.package, "demo.M"⟩ field =
        .ok "map<string, string> items = 1;" := by
  obtain ⟨pool, file, message, field, hpool, hnames, hfile, hmessage, hnested, -, hfield, hrepeats,
    hline⟩ := exists_fieldLine_namesakeFile "demo.Other.FooEntry" "map<string, string> items = 1;"
      (by decide)
  refine ⟨pool, file, message, field, hpool, hnames, hfile, hmessage, hfield, hrepeats, ?_, hline⟩
  intro entry hentry
  have hname : entry.name = "FooEntry" := by
    simpa [hnested] using List.mem_map_of_mem (f := Message.name) hentry
  rw [hname]
  decide

end ProtoSource.Render
