import ProtoSource.Proofs.Pool.Widening

/-!
# References with more files in front

A reference of a set that can be resolved with and without files in front of the
set leads to the same symbol.  Only a name of several components could be led
astray, into a package or message of the files in front; but below that nothing is
visible.  So resolution gives the same files.
-/

namespace ProtoSource.Pool

open ProtoSource.Descriptor
open ProtoSource.Related
open ProtoSource.Success
open ProtoSource.Text

namespace Outlook

variable {outlook : Outlook} {wanted : Wanted} {name : String} {symbol : Symbol}

theorem lookUp_eq_found :
    outlook.lookUp wanted name = .found symbol ↔ outlook.table.find? name = some symbol ∧
      symbol.file ∈ outlook.visible ∧ wanted.admits symbol.kind = true := by
  unfold lookUp
  cases outlook.table.find? name with
  | none => simp
  | some found =>
      dsimp only
      split_ifs with hhidden hadmits
      · simp only [Option.some.injEq, false_iff]
        rintro ⟨rfl, hvisible, -⟩
        simp [hvisible] at hhidden
      · simp only [Outcome.found.injEq, Option.some.injEq]
        constructor
        · rintro rfl
          exact ⟨rfl, by simpa using hhidden, hadmits⟩
        · exact fun hfound => hfound.1
      · simp only [Option.some.injEq, false_iff]
        rintro ⟨rfl, -, hadmits'⟩
        exact hadmits hadmits'

theorem settle_eq_ok {absent : Fault} :
    outlook.settle wanted name absent = .ok symbol ↔
      outlook.lookUp wanted name = .found symbol := by
  unfold settle
  cases outlook.lookUp wanted name <;> simp

/-- A look-up of the full name finds something. -/
def finds (outlook : Outlook) (wanted : Wanted) (name : String) : Bool :=
  match outlook.lookUp wanted name with
  | .found _ => true
  | _ => false

theorem finds_iff : outlook.finds wanted name = true ↔
    ∃ symbol, outlook.lookUp wanted name = .found symbol := by
  unfold finds
  cases outlook.lookUp wanted name <;> simp

/-- Of some full names the first that finds something counts. -/
theorem firstOf_eq_ok {absent : Fault} {names : List String}
    (hfirst : outlook.firstOf wanted absent names = .ok symbol) :
    ∃ name, names.find? (outlook.finds wanted) = some name ∧
      outlook.lookUp wanted name = .found symbol := by
  unfold firstOf at hfirst
  dsimp only at hfirst
  split at hfirst
  · next name hfind => exact ⟨name, hfind, settle_eq_ok.1 hfirst⟩
  · next hfind =>
      split at hfirst
      · next name hname =>
          have hfinds := finds_iff.2 ⟨symbol, settle_eq_ok.1 hfirst⟩
          exact absurd hfinds (List.find?_eq_none.1 hfind name (List.mem_of_find?_eq_some hname))
      · simp at hfirst

theorem isAggregate_iff : outlook.isAggregate name = true ↔
    ∃ symbol, outlook.table.find? name = some symbol ∧ symbol.kind.isAggregate = true := by
  unfold isAggregate
  cases outlook.table.find? name <;> simp

end Outlook

theorem Wanted.isType_of_admits {wanted : Wanted} {kind : SymbolKind}
    (hadmits : wanted.admits kind = true) : kind.isType = true := by
  cases wanted <;> cases kind <;> simp_all [Wanted.admits, SymbolKind.isType]

/-! ## Files in front -/

/-- `table` is of the files `own` and `wider` of the same files with `added` in
front. -/
structure Widened (added own : List (Dialect × File)) (table wider : SymbolTable) : Prop where
  enters : SymbolTable.ofFiles own = .ok table
  enters' : SymbolTable.ofFiles (added ++ own) = .ok wider
  alone : StandsAlone (added.map Prod.snd) (own.map Prod.snd)
  wellNamed : ∀ file ∈ own, WellNamed file.2

namespace Widened

variable {added own : List (Dialect × File)} {table wider : SymbolTable}
  (hwidened : Widened added own table wider) {visible : List String}

include hwidened

/-- What the files in front enter is apart from what the set enters. -/
theorem apart : ∀ front ∈ added, ∀ file ∈ own, ∀ entry ∈ entriesOf front, ∀ other ∈ entriesOf file,
    Apart entry other := by
  obtain ⟨front, hfront, -⟩ := SymbolTable.exists_widens hwidened.enters hwidened.enters'
  exact ((SymbolTable.exists_ofFiles_append_iff ⟨front, hfront⟩ ⟨table, hwidened.enters⟩).1
    ⟨wider, hwidened.enters'⟩).2

/-- Something is found with the files in front if and only if it is found without
them. -/
theorem lookUp_eq_found_iff (hvisible : visible ⊆ (own.map Prod.snd).map File.name)
    {wanted : Wanted} {name : String} {symbol : Symbol} :
    Outlook.lookUp ⟨wider, visible⟩ wanted name = .found symbol ↔
      Outlook.lookUp ⟨table, visible⟩ wanted name = .found symbol := by
  obtain ⟨front, hfront, hwidens⟩ := SymbolTable.exists_widens hwidened.enters hwidened.enters'
  rw [Outlook.lookUp_eq_found, Outlook.lookUp_eq_found]
  dsimp only
  refine and_congr_left fun ⟨hfile, hadmits⟩ => ?_
  have hkind : symbol.kind ≠ .package := by
    intro hpackage
    have htype := Wanted.isType_of_admits hadmits
    rw [hpackage] at htype
    simp [SymbolKind.isType] at htype
  constructor
  · intro hfind
    cases hown : table.find? name with
    | none =>
        -- The symbol is of a file in front, and these are not visible.
        rw [hwidens.fresh hown] at hfind
        have hmem := SymbolTable.file_mem_of_ofFiles hfront symbol (List.mem_of_find?_eq_some hfind)
        obtain ⟨file, hadded, heq⟩ := List.mem_map.1 hmem
        refine absurd (hvisible hfile) ?_
        rw [← heq]
        exact hwidened.alone.differ file.2 (List.mem_map_of_mem hadded)
    | some found =>
        obtain ⟨other, hother, hkinds, hsame⟩ := hwidens.kept hown
        obtain rfl := Option.some.inj (hfind.symm.trans hother)
        rw [hsame (hkinds ▸ hkind)]
  · intro hfind
    obtain ⟨other, hother, -, hsame⟩ := hwidens.kept hfind
    rwa [hsame hkind] at hother

theorem isAggregate_of_own {name : String}
    (hown : Outlook.isAggregate ⟨table, visible⟩ name = true) :
    Outlook.isAggregate ⟨wider, visible⟩ name = true := by
  obtain ⟨front, -, hwidens⟩ := SymbolTable.exists_widens hwidened.enters hwidened.enters'
  obtain ⟨symbol, hfind, hkind⟩ := Outlook.isAggregate_iff.1 hown
  obtain ⟨other, hother, hkinds, -⟩ := hwidens.kept hfind
  exact Outlook.isAggregate_iff.2 ⟨other, hother, by rw [hkinds, hkind]⟩

/-- What a type of the set is cut off from can hold declarations. -/
theorem isAggregate_of_cut {name front : String} {symbol : Symbol} {rest : List Char}
    (hfind : table.find? name = some symbol) (htype : symbol.kind.isType = true)
    (hcut : name.toList = front.toList ++ '.' :: rest) :
    Outlook.isAggregate ⟨table, visible⟩ front = true := by
  obtain ⟨file, hfile, hname⟩ := SymbolTable.exists_mem_typesOf hwidened.enters hfind htype
  have hfront := (hwidened.wellNamed _ hfile).mem_holdersOf_of_cut hname hcut
  obtain ⟨kind, hkind, hentry⟩ := (mem_holdersOf_iff file.1).1 hfront
  have hheld := (SymbolTable.keeps_ofFiles hwidened.enters front kind).2
    (List.mem_flatMap.2 ⟨_, hfile, hentry⟩)
  obtain ⟨holder, hholder, rfl⟩ := Option.map_eq_some_iff.1 hheld
  exact Outlook.isAggregate_iff.2 ⟨holder, hholder, hkind⟩

/-- The search for the first component of a name stops at the same scope, if it
finds the whole name there. -/
theorem find?_isAggregate_eq (hvisible : visible ⊆ (own.map Prod.snd).map File.name)
    {wanted : Wanted} {name first rest outer : String} {scopes : List String} {symbol : Symbol}
    (hchars : name.toList = first.toList ++ '.' :: rest.toList)
    (houter : scopes.find? (fun outer =>
      Outlook.isAggregate ⟨wider, visible⟩ (Name.join outer first)) = some outer)
    (hlookUp : Outlook.lookUp ⟨wider, visible⟩ wanted (Name.join outer name) = .found symbol) :
    scopes.find? (fun outer =>
      Outlook.isAggregate ⟨table, visible⟩ (Name.join outer first)) = some outer := by
  rw [hwidened.lookUp_eq_found_iff hvisible, Outlook.lookUp_eq_found] at hlookUp
  obtain ⟨hfind, -, hadmits⟩ := hlookUp
  have hcut : (Name.join outer name).toList =
      (Name.join outer first).toList ++ '.' :: rest.toList := by
    by_cases hroot : outer = ""
    · simpa [hroot] using hchars
    · simp [Name.toList_join hroot, hchars]
  obtain ⟨-, before, after, hscopes, hbefore⟩ := List.find?_eq_some_iff_append.1 houter
  refine List.find?_eq_some_iff_append.2 ⟨?_, before, after, hscopes, fun inner hinner => ?_⟩
  · exact hwidened.isAggregate_of_cut hfind (Wanted.isType_of_admits hadmits) hcut
  · have hnot := hbefore inner hinner
    rw [Bool.not_eq_true', ← Bool.not_eq_true] at hnot ⊢
    exact fun hown => hnot (hwidened.isAggregate_of_own hown)

/-- A reference that can be resolved with and without the files in front leads to
the same symbol. -/
theorem resolve_eq (hvisible : visible ⊆ (own.map Prod.snd).map File.name) {wanted : Wanted}
    {scope name : String} {symbol symbol' : Symbol}
    (hresolve : Outlook.resolve ⟨table, visible⟩ wanted scope name = .ok symbol)
    (hresolve' : Outlook.resolve ⟨wider, visible⟩ wanted scope name = .ok symbol') :
    symbol = symbol' := by
  have hfound {name : String}
      (hfound : Outlook.lookUp ⟨table, visible⟩ wanted name = .found symbol)
      (hfound' : Outlook.lookUp ⟨wider, visible⟩ wanted name = .found symbol') :
      symbol = symbol' := by
    rw [hwidened.lookUp_eq_found_iff hvisible, hfound] at hfound'
    exact Outcome.found.inj hfound'
  have hsettled {name : String} {absent : Fault}
      (hsettle : Outlook.settle ⟨table, visible⟩ wanted name absent = .ok symbol)
      (hsettle' : Outlook.settle ⟨wider, visible⟩ wanted name absent = .ok symbol') :
      symbol = symbol' :=
    hfound (Outlook.settle_eq_ok.1 hsettle) (Outlook.settle_eq_ok.1 hsettle')
  unfold Outlook.resolve at hresolve hresolve'
  rcases habsolute : Name.absolute? name with _ | fullName
  · simp only [habsolute] at hresolve hresolve'
    split_ifs at hresolve hresolve' with hempty
    · exact hsettled hresolve hresolve'
    obtain ⟨-, hsplit⟩ | ⟨first, rest, -, hchars, hsplit⟩ := Name.splitFirst_cases name
    · simp only [hsplit] at hresolve hresolve'
      obtain ⟨found, hfind, hlookUp⟩ := Outlook.firstOf_eq_ok hresolve
      obtain ⟨found', hfind', hlookUp'⟩ := Outlook.firstOf_eq_ok hresolve'
      have hfinds :
          Outlook.finds ⟨wider, visible⟩ wanted = Outlook.finds ⟨table, visible⟩ wanted := by
        funext name
        rw [Bool.eq_iff_iff, Outlook.finds_iff, Outlook.finds_iff]
        exact exists_congr fun symbol => hwidened.lookUp_eq_found_iff hvisible
      rw [hfinds, hfind] at hfind'
      obtain rfl := Option.some.inj hfind'
      exact hfound hlookUp hlookUp'
    · simp only [hsplit] at hresolve hresolve'
      split at hresolve'
      · next outer houter =>
          have hlookUp := Outlook.settle_eq_ok.1 hresolve'
          simp only [hwidened.find?_isAggregate_eq hvisible hchars houter hlookUp] at hresolve
          exact hsettled hresolve hresolve'
      · simp at hresolve'
  · simp only [habsolute] at hresolve hresolve'
    exact hsettled hresolve hresolve'

end Widened

/-! ## Resolved files -/

theorem resolveExtension_eq_ok {context : Context} {scope : String} {path : List Nat}
    {field resolved : Field} (hresolve : resolveExtension context scope path field = .ok resolved) :
    ∃ extendee target,
      context.outlook.resolve .message (Name.join scope field.name) (field.extendee?.getD "") =
        .ok extendee ∧
      fieldTarget context (Name.join scope field.name) path field = .ok target ∧
      { withTarget target field with extendee? := some ("." ++ extendee.name) } = resolved := by
  simp only [resolveExtension, bind_eq_ok] at hresolve
  obtain ⟨extendee, hextendee, hresolve⟩ := hresolve
  split at hresolve
  · simp only [bind_eq_ok, pure_eq_ok] at hresolve
    obtain ⟨-, -, target, htarget, -, -, rfl⟩ := hresolve
    exact ⟨extendee, target, hextendee, htarget, rfl⟩
  · simp only [bind_eq_ok, pure_eq_ok] at hresolve
    obtain ⟨target, htarget, -, -, rfl⟩ := hresolve
    exact ⟨extendee, target, hextendee, htarget, rfl⟩

/-- Where both contexts resolve a reference, they resolve it to the same symbol. -/
def Context.Agrees (context context' : Context) : Prop :=
  ∀ wanted scope name symbol symbol', context.outlook.resolve wanted scope name = .ok symbol →
    context'.outlook.resolve wanted scope name = .ok symbol' → symbol = symbol'

section Agrees

variable {context context' : Context} (hagrees : context.Agrees context')

include hagrees

theorem fieldTarget_eq {scope : String} {path : List Nat} {field : Field} {target target' : Target}
    (htarget : fieldTarget context scope path field = .ok target)
    (htarget' : fieldTarget context' scope path field = .ok target') : target = target' := by
  unfold fieldTarget at htarget htarget'
  split_ifs at htarget htarget'
  · exact Except.ok.inj (htarget.symm.trans htarget')
  · obtain ⟨symbol, hsymbol, htarget⟩ := bind_eq_ok.1 htarget
    obtain ⟨symbol', hsymbol', htarget'⟩ := bind_eq_ok.1 htarget'
    obtain rfl := hagrees _ _ _ _ _ hsymbol hsymbol'
    exact Except.ok.inj (htarget.symm.trans htarget')

theorem resolveField_eq {ownerName : String} {owner : MessageBody} {path : List Nat}
    {earlier : List Field} {field resolved resolved' : Field}
    (hresolve : resolveField context ownerName owner path earlier field = .ok resolved)
    (hresolve' : resolveField context' ownerName owner path earlier field = .ok resolved') :
    resolved = resolved' := by
  simp only [resolveField, bind_eq_ok, pure_eq_ok] at hresolve hresolve'
  obtain ⟨-, -, target, htarget, -, -, -, -, -, -, -, -, rfl⟩ := hresolve
  obtain ⟨-, -, target', htarget', -, -, -, -, -, -, -, -, rfl⟩ := hresolve'
  rw [fieldTarget_eq hagrees htarget htarget']

theorem resolveFields_eq {ownerName : String} {owner : MessageBody} {path : List Nat}
    {index : Nat} {earlier fields resolved resolved' : List Field}
    (hresolve : resolveFields context ownerName owner path index earlier fields = .ok resolved)
    (hresolve' : resolveFields context' ownerName owner path index earlier fields = .ok resolved') :
    resolved = resolved' := by
  induction fields generalizing index earlier with
  | nil => exact Except.ok.inj (hresolve.symm.trans hresolve')
  | cons field rest ih =>
      simp only [resolveFields, bind_eq_ok] at hresolve hresolve'
      obtain ⟨first, hfirst, hrest⟩ := hresolve
      obtain ⟨first', hfirst', hrest'⟩ := hresolve'
      obtain rfl := resolveField_eq hagrees hfirst hfirst'
      exact ih hrest hrest'

theorem resolveExtension_eq {scope : String} {path : List Nat} {field resolved resolved' : Field}
    (hresolve : resolveExtension context scope path field = .ok resolved)
    (hresolve' : resolveExtension context' scope path field = .ok resolved') :
    resolved = resolved' := by
  obtain ⟨extendee, target, hextendee, htarget, rfl⟩ := resolveExtension_eq_ok hresolve
  obtain ⟨extendee', target', hextendee', htarget', rfl⟩ := resolveExtension_eq_ok hresolve'
  rw [hagrees _ _ _ _ _ hextendee hextendee', fieldTarget_eq hagrees htarget htarget']

theorem resolveExtensions_eq {scope : String} {path : List Nat} {tag index : Nat}
    {fields resolved resolved' : List Field}
    (hresolve : resolveExtensions context scope path tag index fields = .ok resolved)
    (hresolve' : resolveExtensions context' scope path tag index fields = .ok resolved') :
    resolved = resolved' := by
  induction fields generalizing index resolved resolved' with
  | nil => exact Except.ok.inj (hresolve.symm.trans hresolve')
  | cons field rest ih =>
      simp only [resolveExtensions, bind_eq_ok, pure_eq_ok] at hresolve hresolve'
      obtain ⟨first, hfirst, others, hothers, rfl⟩ := hresolve
      obtain ⟨first', hfirst', others', hothers', rfl⟩ := hresolve'
      rw [resolveExtension_eq hagrees hfirst hfirst', ih hothers hothers']

theorem resolveMethod_eq {scope : String} {method resolved resolved' : Method}
    (hresolve : resolveMethod context scope method = .ok resolved)
    (hresolve' : resolveMethod context' scope method = .ok resolved') : resolved = resolved' := by
  obtain ⟨input, output, hinput, houtput, rfl⟩ := resolveMethod_eq_ok.1 hresolve
  obtain ⟨input', output', hinput', houtput', rfl⟩ := resolveMethod_eq_ok.1 hresolve'
  rw [hagrees _ _ _ _ _ hinput hinput', hagrees _ _ _ _ _ houtput houtput']

theorem resolveService_eq {scope : String} {service resolved resolved' : Service}
    (hresolve : resolveService context scope service = .ok resolved)
    (hresolve' : resolveService context' scope service = .ok resolved') : resolved = resolved' := by
  obtain ⟨methods, hmethods, rfl⟩ := resolveService_eq_ok.1 hresolve
  obtain ⟨methods', hmethods', rfl⟩ := resolveService_eq_ok.1 hresolve'
  rw [eq_of_runs hmethods hmethods' fun _ _ _ _ => resolveMethod_eq hagrees]

end Agrees

mutual

theorem resolveMessage_eq {context context' : Context} (hagrees : context.Agrees context')
    {scope : String} {path : List Nat} {message resolved resolved' : Message}
    (hresolve : resolveMessage context scope path message = .ok resolved)
    (hresolve' : resolveMessage context' scope path message = .ok resolved') :
    resolved = resolved' := by
  obtain ⟨body, nested⟩ := message
  simp only [resolveMessage, bind_eq_ok, pure_eq_ok] at hresolve hresolve'
  obtain ⟨fields, hfields, inner, hinner, -, -, extensions, hextensions, rfl⟩ := hresolve
  obtain ⟨fields', hfields', inner', hinner', -, -, extensions', hextensions', rfl⟩ := hresolve'
  rw [resolveFields_eq hagrees hfields hfields', resolveMessages_eq hagrees hinner hinner',
    resolveExtensions_eq hagrees hextensions hextensions']

theorem resolveMessages_eq {context context' : Context} (hagrees : context.Agrees context')
    {scope : String} {path : List Nat} {tag index : Nat}
    {messages resolved resolved' : List Message}
    (hresolve : resolveMessages context scope path tag index messages = .ok resolved)
    (hresolve' : resolveMessages context' scope path tag index messages = .ok resolved') :
    resolved = resolved' := by
  cases messages with
  | nil =>
      rw [resolveMessages] at hresolve hresolve'
      exact Except.ok.inj (hresolve.symm.trans hresolve')
  | cons message rest =>
      simp only [resolveMessages, bind_eq_ok, pure_eq_ok] at hresolve hresolve'
      obtain ⟨first, hfirst, others, hothers, rfl⟩ := hresolve
      obtain ⟨first', hfirst', others', hothers', rfl⟩ := hresolve'
      rw [resolveMessage_eq hagrees hfirst hfirst', resolveMessages_eq hagrees hothers hothers']

end

theorem resolveFile_eq {symbols symbols' : SymbolTable} {files files' : List File}
    {messages messages' : List (String × Message)} {enums enums' : List (String × Enumeration)}
    {file resolved resolved' : File}
    (hagrees : (contextOf symbols files messages enums file).Agrees
      (contextOf symbols' files' messages' enums' file))
    (hresolve : resolveFile symbols files messages enums file = .ok resolved)
    (hresolve' : resolveFile symbols' files' messages' enums' file = .ok resolved') :
    resolved = resolved' := by
  obtain ⟨-, -, _, services, _, hmessages, hservices, hextensions, rfl⟩ :=
    resolveFile_eq_ok.1 hresolve
  obtain ⟨-, -, _, services', _, hmessages', hservices', hextensions', rfl⟩ :=
    resolveFile_eq_ok.1 hresolve'
  rw [resolveMessages_eq hagrees hmessages hmessages',
    eq_of_runs hservices hservices' fun _ _ _ _ => resolveService_eq hagrees,
    resolveExtensions_eq hagrees hextensions hextensions']

/-- The files of a set that resolves import each other. -/
theorem Builds.mem_of_mem_imports {files : List (Dialect × File)} {symbols : SymbolTable}
    {resolved : List File} {pool : Pool} (hbuilds : Builds files symbols resolved pool) :
    ∀ file ∈ files.map Prod.snd, ∀ path ∈ file.imports,
      path ∈ (files.map Prod.snd).map File.name := by
  have hchecked := hbuilds.resolves.imp fun _ _ hresolve =>
    And.intro (resolveFile_eq_ok.1 hresolve).1 trivial
  intro file hfile path hpath
  have himports := ((List.forall₂_and_left _ _).1 hchecked).1 file hfile
  unfold checkImports at himports
  split at himports
  · contradiction
  · next hnone => simpa using List.find?_eq_none.1 hnone path hpath

/-- A file of the set is resolved alike with and without the files in front. -/
theorem Widened.agrees {added own : List (Dialect × File)} {table wider : SymbolTable}
    (hwidened : Widened added own table wider) {file : File} (hfile : file ∈ own.map Prod.snd)
    (messages messages' : List (String × Message)) (enums enums' : List (String × Enumeration)) :
    (contextOf table (own.map Prod.snd) messages enums file).Agrees
      (contextOf wider (added.map Prod.snd ++ own.map Prod.snd) messages' enums' file) := by
  obtain ⟨hsame, hvisible⟩ := hwidened.alone.visibleFrom_eq hfile
  intro wanted scope name symbol symbol' hresolve hresolve'
  unfold contextOf at hresolve hresolve'
  rw [hsame] at hresolve'
  exact hwidened.resolve_eq hvisible hresolve hresolve'

/-- Files in front that nothing of the set leads to leave its resolved files as they
are. -/
theorem Widened.exists_resolved {added own : List (Dialect × File)} {table wider : SymbolTable}
    (hwidened : Widened added own table wider) {resolved resolved' : List File} {pool pool' : Pool}
    (hbuilds : Builds own table resolved pool)
    (hbuilds' : Builds (added ++ own) wider resolved' pool') :
    ∃ front, resolved' = front ++ resolved ∧
      List.Forall₂ (fun file file' => resolveFile wider ((added ++ own).map Prod.snd)
        (((added ++ own).map Prod.snd).flatMap messagesOf)
        (((added ++ own).map Prod.snd).flatMap enumsOf) file = .ok file')
        (added.map Prod.snd) front := by
  have hall := hbuilds'.resolves
  rw [List.map_append] at hall
  obtain ⟨front, back, rfl, hfront, hback⟩ := exists_append_of_forall₂ hall
  refine ⟨front, congrArg (front ++ ·) ?_, by rwa [List.map_append]⟩
  exact (eq_of_runs hbuilds.resolves hback fun file hfile _ _ hresolve hresolve' =>
    resolveFile_eq (hwidened.agrees hfile _ _ _ _) hresolve hresolve').symm

end ProtoSource.Pool
