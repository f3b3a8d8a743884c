import ProtoSource.Pool.Declared
import ProtoSource.Proofs.Text.Names

/-!
# What files declare

The full names of the types and of the holders of a file.  With well-formed
names every declaration lies below holders of its own file: cutting a full name
at a dot leaves a package of the file or a message around the declaration.
-/

namespace ProtoSource.Pool

open ProtoSource.Descriptor
open ProtoSource.Text

/-- The full names of the messages and enums of a file. -/
def typesOf (file : File) : List String :=
  (messagesOf file).map Prod.fst ++ (enumsOf file).map Prod.fst

/-- The full names below which a file can declare something: its packages,
types and services. -/
def holdersOf (file : File) : List String :=
  Name.packages file.package ++ typesOf file ++ (servicesOf file).map Prod.fst

/-- Every declaration of a file is named by an identifier, and its package has
no empty component. -/
structure WellNamed (file : File) : Prop where
  package : Name.IsDotted file.package
  messages : ∀ entry ∈ messagesOf file, Name.IsIdentifier entry.2.name
  enums : ∀ entry ∈ enumsOf file, Name.IsIdentifier entry.2.name
  services : ∀ entry ∈ servicesOf file, Name.IsIdentifier entry.2.name

theorem wellNamed_iff {file : File} :
    WellNamed file ↔ Name.IsDotted file.package ∧
      (∀ entry ∈ messagesOf file, Name.IsIdentifier entry.2.name) ∧
      (∀ entry ∈ enumsOf file, Name.IsIdentifier entry.2.name) ∧
      ∀ entry ∈ servicesOf file, Name.IsIdentifier entry.2.name :=
  ⟨fun hfile => ⟨hfile.package, hfile.messages, hfile.enums, hfile.services⟩,
    fun ⟨hpackage, hmessages, henums, hservices⟩ => ⟨hpackage, hmessages, henums, hservices⟩⟩

instance (file : File) : Decidable (WellNamed file) :=
  decidable_of_iff _ wellNamed_iff.symm

/-! ## Nested messages -/

theorem mem_messagesIn {scope : String} {messages : List Message} {message : Message}
    (hmem : message ∈ messages) :
    (Name.join scope message.name, message) ∈ messagesIn scope messages := by
  induction messages with
  | nil => simp at hmem
  | cons first rest ih =>
      rw [messagesIn, List.mem_append]
      obtain rfl | hrest := List.mem_cons.1 hmem
      · obtain ⟨body, nested⟩ := message
        exact Or.inl (by rw [messageIn]; exact List.mem_cons_self)
      · exact Or.inr (ih hrest)

mutual

theorem mem_messageIn_of_nested {scope fullName : String} {message outer inner : Message}
    (houter : (fullName, outer) ∈ messageIn scope message) (hinner : inner ∈ outer.nested) :
    (Name.join fullName inner.name, inner) ∈ messageIn scope message := by
  obtain ⟨body, nested⟩ := message
  rw [messageIn, List.mem_cons] at houter ⊢
  obtain hself | hbelow := houter
  · obtain ⟨rfl, rfl⟩ := Prod.mk.inj hself
    exact Or.inr (mem_messagesIn hinner)
  · exact Or.inr (mem_messagesIn_of_nested hbelow hinner)

/-- A message nested in a message has its full name below that of the other. -/
theorem mem_messagesIn_of_nested {scope fullName : String} {messages : List Message}
    {outer inner : Message} (houter : (fullName, outer) ∈ messagesIn scope messages)
    (hinner : inner ∈ outer.nested) :
    (Name.join fullName inner.name, inner) ∈ messagesIn scope messages := by
  cases messages with
  | nil => simp [messagesIn] at houter
  | cons message rest =>
      rw [messagesIn, List.mem_append] at houter ⊢
      exact houter.imp (fun hfirst => mem_messageIn_of_nested hfirst hinner)
        fun hrest => mem_messagesIn_of_nested hrest hinner

end

mutual

theorem isDotted_of_mem_messageIn {scope : String} {message : Message}
    (hscope : Name.IsDotted scope)
    (hnames : ∀ entry ∈ messageIn scope message, Name.IsIdentifier entry.2.name) :
    ∀ entry ∈ messageIn scope message, Name.IsDotted entry.1 := by
  obtain ⟨body, nested⟩ := message
  simp only [messageIn, List.forall_mem_cons] at hnames ⊢
  have hfull : Name.IsDotted (Name.join scope body.name) := hscope.join hnames.1
  exact ⟨hfull, isDotted_of_mem_messagesIn hfull hnames.2⟩

theorem isDotted_of_mem_messagesIn {scope : String} {messages : List Message}
    (hscope : Name.IsDotted scope)
    (hnames : ∀ entry ∈ messagesIn scope messages, Name.IsIdentifier entry.2.name) :
    ∀ entry ∈ messagesIn scope messages, Name.IsDotted entry.1 := by
  cases messages with
  | nil => simp [messagesIn]
  | cons message rest =>
      simp only [messagesIn, List.forall_mem_append] at hnames ⊢
      exact ⟨isDotted_of_mem_messageIn hscope hnames.1,
        isDotted_of_mem_messagesIn hscope hnames.2⟩

end

mutual

/-- The scopes around a nested message are scopes around the outermost one and
messages on the way. -/
theorem mem_packages_of_mem_messageIn {scope front : String} {message : Message}
    (hnames : ∀ entry ∈ messageIn scope message, Name.IsIdentifier entry.2.name) :
    ∀ entry ∈ messageIn scope message, front ∈ Name.packages entry.1 →
      front ∈ Name.packages scope ∨ front ∈ (messageIn scope message).map Prod.fst := by
  obtain ⟨body, nested⟩ := message
  simp only [messageIn, List.forall_mem_cons, List.map_cons] at hnames ⊢
  have houter (hfront : front ∈ Name.packages (Name.join scope body.name)) :
      front = Name.join scope body.name ∨ front ∈ Name.packages scope :=
    Name.mem_packages_join hnames.1.2 hfront
  refine ⟨fun hfront => ?_, fun entry hentry hfront => ?_⟩
  · obtain hself | haround := houter hfront
    · exact Or.inr (by simp [hself])
    · exact Or.inl haround
  · obtain hfront | hinside := mem_packages_of_mem_messagesIn hnames.2 entry hentry hfront
    · obtain hself | haround := houter hfront
      · exact Or.inr (by simp [hself])
      · exact Or.inl haround
    · exact Or.inr (List.mem_cons_of_mem _ hinside)

theorem mem_packages_of_mem_messagesIn {scope front : String} {messages : List Message}
    (hnames : ∀ entry ∈ messagesIn scope messages, Name.IsIdentifier entry.2.name) :
    ∀ entry ∈ messagesIn scope messages, front ∈ Name.packages entry.1 →
      front ∈ Name.packages scope ∨ front ∈ (messagesIn scope messages).map Prod.fst := by
  cases messages with
  | nil => simp [messagesIn]
  | cons message rest =>
      simp only [messagesIn, List.forall_mem_append, List.map_append] at hnames ⊢
      refine ⟨fun entry hentry hfront => ?_, fun entry hentry hfront => ?_⟩
      · obtain haround | hinside :=
          mem_packages_of_mem_messageIn hnames.1 entry hentry hfront
        · exact Or.inl haround
        · exact Or.inr (List.mem_append_left _ hinside)
      · obtain haround | hinside :=
          mem_packages_of_mem_messagesIn hnames.2 entry hentry hfront
        · exact Or.inl haround
        · exact Or.inr (List.mem_append_right _ hinside)

end

/-- An enum of a message is an enum of the file. -/
theorem mem_enumsOf_of_nested {file : File} {entry : String × Message}
    (hentry : entry ∈ messagesOf file)
    {enumeration : Enumeration} (henum : enumeration ∈ entry.2.body.enums) :
    (Name.join entry.1 enumeration.name, enumeration) ∈ enumsOf file :=
  List.mem_append_right _ (List.mem_flatMap.2 ⟨entry, hentry, List.mem_map_of_mem henum⟩)

/-! ## Holders -/

/-- Packages and messages are holders. -/
theorem mem_holdersOf_of_mem_scopes {file : File} {name : String}
    (hname : name ∈ Name.packages file.package ∨ name ∈ (messagesOf file).map Prod.fst) :
    name ∈ holdersOf file := by
  obtain hpackage | hmessage := hname
  · exact List.mem_append_left _ (List.mem_append_left _ hpackage)
  · exact List.mem_append_left _ (List.mem_append_right _ (List.mem_append_left _ hmessage))

namespace WellNamed

variable {file : File}

/-- A type is declared by an identifier, in the package or in a message of its
file. -/
theorem exists_join_of_mem_typesOf (hfile : WellNamed file) {fullName : String}
    (hmem : fullName ∈ typesOf file) :
    (∃ entry ∈ messagesOf file, entry.1 = fullName) ∨
      ∃ scope name, fullName = Name.join scope name ∧ Name.IsIdentifier name ∧
        (scope = file.package ∨ ∃ entry ∈ messagesOf file, entry.1 = scope) := by
  simp only [typesOf, List.mem_append, List.mem_map] at hmem
  obtain hmessage | ⟨⟨name, enumeration⟩, hentry, rfl⟩ := hmem
  · exact Or.inl hmessage
  have hname : Name.IsIdentifier enumeration.name := hfile.enums _ hentry
  refine Or.inr ?_
  simp only [enumsOf, enumsIn, List.mem_append, List.mem_flatMap, List.mem_map,
    Prod.mk.injEq] at hentry
  obtain ⟨enumeration, -, rfl, rfl⟩ | ⟨outer, houter, enumeration, -, rfl, rfl⟩ := hentry
  · exact ⟨_, _, rfl, hname, Or.inl rfl⟩
  · exact ⟨_, _, rfl, hname, Or.inr ⟨outer, houter, rfl⟩⟩

theorem isDotted_of_mem_typesOf (hfile : WellNamed file) {fullName : String}
    (hmem : fullName ∈ typesOf file) : Name.IsDotted fullName := by
  have hmessages : ∀ entry ∈ messagesOf file, Name.IsDotted entry.1 :=
    isDotted_of_mem_messagesIn hfile.package hfile.messages
  obtain ⟨entry, hentry, rfl⟩ | ⟨scope, name, rfl, hname, rfl | ⟨entry, hentry, rfl⟩⟩ :=
    hfile.exists_join_of_mem_typesOf hmem
  · exact hmessages entry hentry
  · exact hfile.package.join hname
  · exact (hmessages entry hentry).join hname

theorem isDotted_of_mem_holdersOf (hfile : WellNamed file) {fullName : String}
    (hmem : fullName ∈ holdersOf file) : Name.IsDotted fullName := by
  simp only [holdersOf, List.mem_append] at hmem
  obtain (hpackage | htype) | hservice := hmem
  · exact hfile.package.of_mem_packages hpackage
  · exact hfile.isDotted_of_mem_typesOf htype
  · simp only [servicesOf, List.map_map, List.mem_map] at hservice
    obtain ⟨service, hservice, rfl⟩ := hservice
    have hname : Name.IsIdentifier service.name :=
      hfile.services (_, service) (List.mem_map_of_mem hservice)
    exact hfile.package.join hname

/-- Cutting the full name of a type at a dot leaves a package of the same file or a
message around the type. -/
theorem mem_scopes_of_cut (hfile : WellNamed file) {fullName front : String} {rest : List Char}
    (hmem : fullName ∈ typesOf file) (hcut : fullName.toList = front.toList ++ '.' :: rest) :
    front ∈ Name.packages file.package ∨ front ∈ (messagesOf file).map Prod.fst := by
  have haround : front ∈ Name.packages fullName := by
    refine Name.mem_packages.2 ⟨?_, Or.inr ⟨rest, hcut⟩⟩
    rintro rfl
    simp at hcut
  have hmessages : ∀ entry ∈ messagesOf file, front ∈ Name.packages entry.1 →
      front ∈ Name.packages file.package ∨ front ∈ (messagesOf file).map Prod.fst :=
    mem_packages_of_mem_messagesIn hfile.messages
  obtain ⟨entry, hentry, rfl⟩ | ⟨scope, name, rfl, hname, rfl | ⟨entry, hentry, rfl⟩⟩ :=
    hfile.exists_join_of_mem_typesOf hmem
  · exact hmessages entry hentry haround
  · exact Or.inl (Name.mem_packages_of_toList_join hname.2 hcut)
  · exact hmessages entry hentry (Name.mem_packages_of_toList_join hname.2 hcut)

theorem mem_holdersOf_of_cut (hfile : WellNamed file) {fullName front : String}
    {rest : List Char} (hmem : fullName ∈ typesOf file)
    (hcut : fullName.toList = front.toList ++ '.' :: rest) : front ∈ holdersOf file :=
  mem_holdersOf_of_mem_scopes (hfile.mem_scopes_of_cut hmem hcut)

end WellNamed

end ProtoSource.Pool
