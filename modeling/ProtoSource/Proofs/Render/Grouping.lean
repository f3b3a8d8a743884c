import Mathlib.Data.List.Nodup
import ProtoSource.Proofs.Render.Printing
import ProtoSource.Proofs.Text.Depths

/-!
# Fields grouped by oneof

The fields of a message are printed in the order of declaration, but for the members
of a oneof, which are all printed where the first of them is declared.  This module
states what that is for any fields, in terms of where they are declared, and proves
that fields are printed so: nothing is lost, doubled or moved.
-/

namespace ProtoSource.Render

open ProtoSource.Descriptor
open ProtoSource.Success
open ProtoSource.Text

/-- A field with where it is declared. -/
abbrev Declared := Field × Nat

/-- What is printed in one piece: a field by itself or a oneof with its members. -/
inductive Piece where
  | alone (field : Declared)
  | oneof (index : Int) (members : List Declared)

namespace Piece

def fields : Piece → List Declared
  | alone field => [field]
  | oneof _ members => members

def alone? : Piece → Option Declared
  | alone field => some field
  | oneof _ _ => none

def index? : Piece → Option Int
  | alone _ => none
  | oneof index _ => some index

/-- Where the first field of the piece is declared. -/
def first? (piece : Piece) : Option Nat :=
  piece.fields.head?.map Prod.snd

end Piece

/-- The pieces hold each of the declared fields once.  Those outside of oneofs are alone and
in order, each oneof that has members is one piece with all of them in order, and the pieces
are ordered by their first fields. -/
structure Regroups (declared : List Declared) (pieces : List Piece) : Prop where
  once : (pieces.flatMap Piece.fields).Perm declared
  alone : pieces.filterMap Piece.alone? = declared.filter fun field => field.1.oneof? == none
  used : ∀ index, index ∈ pieces.filterMap Piece.index? ↔
    ∃ field ∈ declared, field.1.oneof? = some index
  nodup : (pieces.filterMap Piece.index?).Nodup
  members : ∀ index members, .oneof index members ∈ pieces →
    members = declared.filter fun field => field.1.oneof? == some index
  ordered : pieces.Pairwise fun before after =>
    ∃ first ∈ before.first?, ∃ other ∈ after.first?, first < other

/-- The piece that the field is printed in. -/
def pieceOf (declared : List Declared) (field : Declared) : Piece :=
  match field.1.oneof? with
  | none => .alone field
  | some index => .oneof index (declared.filter fun member => member.1.oneof? == some index)

/-- The field is the first of its piece. -/
def leads (declared : List Declared) (field : Declared) : Bool :=
  (pieceOf declared field).first? == some field.2

/-- The pieces that begin among some of the declared fields. -/
def piecesOf (declared rest : List Declared) : List Piece :=
  (rest.filter (leads declared)).map (pieceOf declared)

section

variable {declared : List Declared}

theorem pieceOf_of_none {field : Declared} (hindex : field.1.oneof? = none) :
    pieceOf declared field = .alone field := by
  rw [pieceOf, hindex]

theorem pieceOf_of_some {field : Declared} {index : Int} (hindex : field.1.oneof? = some index) :
    pieceOf declared field =
      .oneof index (declared.filter fun member => member.1.oneof? == some index) := by
  rw [pieceOf, hindex]

theorem piecesOf_cons_of_leads {field : Declared} {rest : List Declared}
    (hleads : leads declared field = true) :
    piecesOf declared (field :: rest) = pieceOf declared field :: piecesOf declared rest := by
  rw [piecesOf, List.filter_cons_of_pos hleads, List.map_cons, piecesOf]

theorem piecesOf_cons_of_not_leads {field : Declared} {rest : List Declared}
    (hleads : ¬leads declared field = true) :
    piecesOf declared (field :: rest) = piecesOf declared rest := by
  rw [piecesOf, List.filter_cons_of_neg hleads, piecesOf]

theorem leads_of_none {field : Declared} (hindex : field.1.oneof? = none) :
    leads declared field = true := by
  simp [leads, pieceOf_of_none hindex, Piece.first?, Piece.fields]

/-- A piece holds the fields whose piece it is. -/
theorem mem_fields_pieceOf {field : Declared} (hfield : field ∈ declared) {other : Declared} :
    other ∈ (pieceOf declared field).fields ↔
      other ∈ declared ∧ pieceOf declared other = pieceOf declared field := by
  cases hindex : field.1.oneof? with
  | none =>
      rw [pieceOf_of_none hindex, Piece.fields, List.mem_singleton]
      constructor
      · rintro rfl
        exact ⟨hfield, pieceOf_of_none hindex⟩
      · rintro ⟨-, hsame⟩
        unfold pieceOf at hsame
        split at hsame
        · exact Piece.alone.inj hsame
        · cases hsame
  | some index =>
      rw [pieceOf_of_some hindex, Piece.fields, List.mem_filter, beq_iff_eq]
      refine and_congr_right fun _ => ⟨pieceOf_of_some, fun hsame => ?_⟩
      unfold pieceOf at hsame
      split at hsame
      · cases hsame
      · next found hfound => exact (Piece.oneof.inj hsame).1 ▸ hfound

theorem exists_leads {field : Declared} (hfield : field ∈ declared) :
    ∃ leader ∈ declared, leads declared leader = true ∧
      pieceOf declared leader = pieceOf declared field := by
  have hself : field ∈ (pieceOf declared field).fields :=
    (mem_fields_pieceOf hfield).2 ⟨hfield, rfl⟩
  cases hfields : (pieceOf declared field).fields with
  | nil => simp [hfields] at hself
  | cons leader rest =>
      obtain ⟨hmem, hpiece⟩ := (mem_fields_pieceOf hfield).1 (hfields ▸ List.mem_cons_self)
      exact ⟨leader, hmem, by simp [leads, Piece.first?, hpiece, hfields], hpiece⟩

/-- Each field has its piece among those of the leading fields. -/
theorem mem_piecesOf {piece : Piece} :
    piece ∈ piecesOf declared declared ↔ ∃ field ∈ declared, pieceOf declared field = piece := by
  simp only [piecesOf, List.mem_map, List.mem_filter]
  constructor
  · rintro ⟨field, ⟨hfield, -⟩, rfl⟩
    exact ⟨field, hfield, rfl⟩
  · rintro ⟨field, hfield, rfl⟩
    obtain ⟨leader, hleader, hleads, hpiece⟩ := exists_leads hfield
    exact ⟨leader, ⟨hleader, hleads⟩, hpiece⟩

theorem alone_piecesOf (rest : List Declared) :
    (piecesOf declared rest).filterMap Piece.alone? =
      rest.filter fun field => field.1.oneof? == none := by
  have halone :
      Piece.alone? ∘ pieceOf declared = Option.guard fun field => field.1.oneof? == none := by
    funext field
    cases hindex : field.1.oneof? with
    | none => simp [pieceOf_of_none hindex, Piece.alone?, Option.guard, hindex]
    | some index => simp [pieceOf_of_some hindex, Piece.alone?, Option.guard, hindex]
  rw [piecesOf, List.filterMap_map, halone, List.filterMap_eq_filter, List.filter_filter]
  refine List.filter_congr fun field _ => ?_
  cases hindex : field.1.oneof? with
  | none => rw [leads_of_none hindex, Bool.and_true]
  | some index => rfl

theorem used_piecesOf (index : Int) :
    index ∈ (piecesOf declared declared).filterMap Piece.index? ↔
      ∃ field ∈ declared, field.1.oneof? = some index := by
  rw [List.mem_filterMap]
  constructor
  · rintro ⟨piece, hpiece, hindex⟩
    obtain ⟨field, hfield, rfl⟩ := mem_piecesOf.1 hpiece
    refine ⟨field, hfield, ?_⟩
    cases hfound : field.1.oneof? with
    | none => simp [pieceOf_of_none hfound, Piece.index?] at hindex
    | some found => simpa [pieceOf_of_some hfound, Piece.index?] using hindex
  · rintro ⟨field, hfield, hindex⟩
    exact ⟨_, mem_piecesOf.2 ⟨field, hfield, rfl⟩, by rw [pieceOf_of_some hindex, Piece.index?]⟩

theorem members_piecesOf {index : Int} {members : List Declared}
    (hpiece : .oneof index members ∈ piecesOf declared declared) :
    members = declared.filter fun field => field.1.oneof? == some index := by
  obtain ⟨field, -, hfield⟩ := mem_piecesOf.1 hpiece
  unfold pieceOf at hfield
  split at hfield
  · cases hfield
  · obtain ⟨rfl, rfl⟩ := Piece.oneof.inj hfield
    rfl

/-- The first fields of the pieces are those that lead. -/
theorem ordered_piecesOf (hdeclared : declared.Pairwise (·.2 < ·.2)) :
    (piecesOf declared declared).Pairwise fun before after =>
      ∃ first ∈ before.first?, ∃ other ∈ after.first?, first < other := by
  rw [piecesOf, List.pairwise_map, List.pairwise_filter]
  refine hdeclared.imp fun hless hfield hother => ?_
  exact ⟨_, by simpa [leads] using hfield, _, by simpa [leads] using hother, hless⟩

theorem nodup_piecesOf (hdeclared : declared.Pairwise (·.2 < ·.2)) :
    (piecesOf declared declared).Nodup := by
  refine (ordered_piecesOf hdeclared).imp ?_
  rintro piece _ ⟨first, hfirst, other, hother, hless⟩ rfl
  exact absurd (Option.some.inj (hfirst.symm.trans hother)) (Nat.ne_of_lt hless)

theorem nodup_index_piecesOf (hdeclared : declared.Pairwise (·.2 < ·.2)) :
    ((piecesOf declared declared).filterMap Piece.index?).Nodup := by
  refine List.pairwise_filterMap.2 ((nodup_piecesOf hdeclared).imp_of_mem ?_)
  rintro piece other hpiece hother hne index hindex index' hindex' rfl
  cases piece with
  | alone field => cases hindex
  | oneof found members =>
      cases other with
      | alone field => cases hindex'
      | oneof found' members' =>
          obtain rfl : found = index := Option.some.inj hindex
          obtain rfl : found' = found := Option.some.inj hindex'
          exact hne (by rw [members_piecesOf hpiece, members_piecesOf hother])

theorem mem_flatMap_fields_piecesOf {field : Declared} :
    field ∈ (piecesOf declared declared).flatMap Piece.fields ↔ field ∈ declared := by
  rw [List.mem_flatMap]
  constructor
  · rintro ⟨piece, hpiece, hfield⟩
    obtain ⟨found, hfound, rfl⟩ := mem_piecesOf.1 hpiece
    exact ((mem_fields_pieceOf hfound).1 hfield).1
  · intro hfield
    exact ⟨_, mem_piecesOf.2 ⟨field, hfield, rfl⟩, (mem_fields_pieceOf hfield).2 ⟨hfield, rfl⟩⟩

/-- A field that is in two pieces makes them the same. -/
theorem eq_of_mem_fields {piece other : Piece} (hpiece : piece ∈ piecesOf declared declared)
    (hother : other ∈ piecesOf declared declared) {field : Declared} (hfield : field ∈ piece.fields)
    (hfield' : field ∈ other.fields) : piece = other := by
  obtain ⟨found, hfound, rfl⟩ := mem_piecesOf.1 hpiece
  obtain ⟨found', hfound', rfl⟩ := mem_piecesOf.1 hother
  calc pieceOf declared found
      = pieceOf declared field := ((mem_fields_pieceOf hfound).1 hfield).2.symm
    _ = pieceOf declared found' := ((mem_fields_pieceOf hfound').1 hfield').2

theorem perm_piecesOf (hdeclared : declared.Pairwise (·.2 < ·.2)) :
    ((piecesOf declared declared).flatMap Piece.fields).Perm declared := by
  have hnodup : declared.Nodup := by
    refine hdeclared.imp ?_
    rintro field _ hless rfl
    exact absurd hless (Nat.lt_irrefl field.2)
  have hfields : ∀ piece ∈ piecesOf declared declared, piece.fields.Nodup := by
    intro piece hpiece
    cases piece with
    | alone field => exact List.nodup_singleton field
    | oneof index members =>
        rw [Piece.fields, members_piecesOf hpiece]
        exact hnodup.filter _
  have hdisjoint : (piecesOf declared declared).Pairwise fun piece other =>
      List.Disjoint piece.fields other.fields := by
    refine (nodup_piecesOf hdeclared).imp_of_mem ?_
    intro piece other hpiece hother hne field hfield hfield'
    exact hne (eq_of_mem_fields hpiece hother hfield hfield')
  exact (List.perm_ext_iff_of_nodup (List.nodup_flatMap.2 ⟨hfields, hdisjoint⟩) hnodup).2
    fun field => mem_flatMap_fields_piecesOf

/-- A member of a oneof leads if no member is declared before it. -/
theorem leads_iff_of_some {before rest : List Declared} {field : Declared}
    (hdeclared : (before ++ field :: rest).Pairwise (·.2 < ·.2)) {index : Int}
    (hindex : field.1.oneof? = some index) :
    leads (before ++ field :: rest) field = true ↔
      ¬∃ member ∈ before, member.1.oneof? = some index := by
  have hfilter : (field :: rest).filter (fun member => member.1.oneof? == some index) =
      field :: rest.filter fun member => member.1.oneof? == some index := by
    rw [List.filter_cons_of_pos (by simpa using hindex)]
  rw [leads, pieceOf_of_some hindex, Piece.first?, Piece.fields, List.filter_append, hfilter]
  cases hmembers : before.filter fun member => member.1.oneof? == some index with
  | nil =>
      rw [List.filter_eq_nil_iff] at hmembers
      simpa using hmembers
  | cons member others =>
      have hmember : member ∈ before.filter fun member => member.1.oneof? == some index := by
        rw [hmembers]
        exact List.mem_cons_self
      rw [List.mem_filter, beq_iff_eq] at hmember
      have hless := (List.pairwise_append.1 hdeclared).2.2 member hmember.1 field List.mem_cons_self
      refine iff_of_false ?_ (not_not_intro ⟨member, hmember⟩)
      simpa using Nat.ne_of_lt hless

theorem regroups_piecesOf (hdeclared : declared.Pairwise (·.2 < ·.2)) :
    Regroups declared (piecesOf declared declared) where
  once := perm_piecesOf hdeclared
  alone := alone_piecesOf declared
  used := used_piecesOf
  nodup := nodup_index_piecesOf hdeclared
  members := fun _ _ => members_piecesOf
  ordered := ordered_piecesOf hdeclared

end

theorem pairwise_zipIdx (fields : List Field) : fields.zipIdx.Pairwise (·.2 < ·.2) := by
  rw [← List.pairwise_map, List.zipIdx_map_snd]
  exact List.pairwise_lt_range'

/-! ## Lines of pieces -/

/-- The lines that a piece is printed as at some depth. -/
inductive Piece.Prints (message : Message) (scope : Scope) (depth : Nat) :
    Piece → List Line → Prop where
  | alone {field : Declared} {text : String} (htext : fieldLine message scope field.1 = .ok text) :
      Prints message scope depth (.alone field) [⟨depth, text⟩]
  | oneof {index : Int} {members : List Declared} {oneof : Oneof} {texts : List String}
      (honeof : oneofAt? message index = some oneof) (hname : oneof.name ≠ "")
      (htexts : List.Forall₂ (fun member text => fieldLine message scope member.1 = .ok text)
        members texts) :
      Prints message scope depth (.oneof index members)
        (⟨depth, "oneof " ++ oneof.name ++ " \x7b"⟩ :: texts.map (Line.mk (depth + 1)) ++
          [⟨depth, "\x7d"⟩])

/-- No option of a oneof is a standard option. -/
theorem standardOptions_oneof (options? : Option (Options .oneof)) :
    standardOptions options? = [] := by
  cases options? <;> rfl

section

variable {message : Message} {scope : Scope}

theorem prints_oneofBlock {field : Field} {index : Int} {block : Item}
    (hblock : oneofBlock message scope field index = .ok block) (layout : Layout) :
    ∃ lines, Piece.Prints message scope layout.depth (.oneof index
        (message.body.fields.zipIdx.filter fun member => member.1.oneof? == some index)) lines ∧
      layout.writeItem block = layout.extend lines := by
  obtain ⟨oneof, honeof, hname, texts, htexts, rfl⟩ := oneofBlock_eq_ok.1 hblock
  have hmembers : message.body.fields.filter (·.oneof? == some index) =
      (message.body.fields.zipIdx.filter fun member => member.1.oneof? == some index).map
        Prod.fst := by
    conv_lhs => rw [← List.zipIdx_map_fst 0 message.body.fields, List.filter_map]
    rfl
  rw [hmembers, mapM_eq_ok, List.forall₂_map_left_iff] at htexts
  refine ⟨_, .oneof honeof hname htexts, ?_⟩
  rw [standardOptions_oneof]
  exact Layout.writeItem_block ("oneof " ++ oneof.name) "" texts layout

/-- What is written after some of the fields, whose oneofs are written already. -/
theorem prints_fieldItems {before rest : List Declared}
    (hdeclared : message.body.fields.zipIdx = before ++ rest) {written : List Int}
    (hwritten : ∀ index, index ∈ written ↔ ∃ field ∈ before, field.1.oneof? = some index)
    {items : List Item} (hitems : fieldItems message scope written (rest.map Prod.fst) = .ok items)
    (layout : Layout) :
    ∃ lines, List.Forall₂ (Piece.Prints message scope layout.depth)
        (piecesOf message.body.fields.zipIdx rest) lines ∧
      layout.write items = layout.extend lines.flatten := by
  induction rest generalizing before written items layout with
  | nil =>
      obtain rfl : [] = items := by simpa [fieldItems] using hitems
      exact ⟨[], .nil, rfl⟩
  | cons field rest ih =>
      have hnext : message.body.fields.zipIdx = (before ++ [field]) ++ rest := by
        simpa using hdeclared
      have hseen {next : List Int}
          (hmem : ∀ other, other ∈ next ↔ other ∈ written ∨ field.1.oneof? = some other)
            (other : Int) :
          other ∈ next ↔ ∃ found ∈ before ++ [field], found.1.oneof? = some other := by
        simp [hmem, hwritten, or_and_right, exists_or]
      rw [List.map_cons, fieldItems] at hitems
      cases hindex : field.1.oneof? with
      | none =>
          simp only [hindex, bind_eq_ok, pure_eq_ok] at hitems
          obtain ⟨text, htext, others, hothers, rfl⟩ := hitems
          obtain ⟨lines, hlines, hwrite⟩ := ih hnext (hseen (by simp [hindex])) hothers
            (layout.extend [⟨layout.depth, text⟩])
          rw [piecesOf_cons_of_leads (leads_of_none hindex), pieceOf_of_none hindex]
          refine ⟨_, .cons (.alone htext) hlines, ?_⟩
          exact hwrite.trans (Layout.extend_extend _ _ _)
      | some index =>
          have hleads : leads message.body.fields.zipIdx field = true ↔ index ∉ written := by
            rw [hwritten, hdeclared]
            exact leads_iff_of_some (hdeclared ▸ pairwise_zipIdx message.body.fields) hindex
          simp only [hindex] at hitems
          split at hitems
          · next hold =>
              have hmem : index ∈ written := by simpa using hold
              rw [piecesOf_cons_of_not_leads (mt hleads.1 (not_not_intro hmem))]
              refine ih hnext (hseen fun other => ?_) hitems layout
              rw [hindex, Option.some.injEq, or_iff_left_of_imp]
              rintro rfl
              exact hmem
          · next hnew =>
              simp only [bind_eq_ok, pure_eq_ok] at hitems
              obtain ⟨block, hblock, others, hothers, rfl⟩ := hitems
              obtain ⟨first, hfirst, hopen⟩ := prints_oneofBlock hblock layout
              obtain ⟨lines, hlines, hwrite⟩ := ih hnext
                (hseen (by simp [hindex, or_comm, eq_comm])) hothers (layout.extend first)
              rw [piecesOf_cons_of_leads (hleads.2 (by simpa using hnew)), pieceOf_of_some hindex]
              refine ⟨_, .cons hfirst hlines, ?_⟩
              rw [Layout.write, hopen, hwrite, Layout.extend_extend, List.flatten_cons]

end

/-- The fields of a message are printed in pieces: each once, those outside of oneofs as
lines by themselves, each used oneof as one block with the name of its declaration and its
members inside, and all in order of declaration. -/
theorem regroups_of_fieldItems {message : Message} {scope : Scope} {items : List Item}
    (hitems : fieldItems message scope [] message.body.fields = .ok items) :
    ∃ pieces, Regroups message.body.fields.zipIdx pieces ∧ ∀ layout : Layout, ∃ lines,
      List.Forall₂ (Piece.Prints message scope layout.depth) pieces lines ∧
        (layout.write items).lines = layout.lines ++ lines.flatten ∧
        (layout.write items).depth = layout.depth := by
  refine ⟨_, regroups_piecesOf (pairwise_zipIdx message.body.fields), fun layout => ?_⟩
  have hall : fieldItems message scope [] (message.body.fields.zipIdx.map Prod.fst) =
      .ok items := by
    rwa [List.zipIdx_map_fst]
  obtain ⟨lines, hlines, hwrite⟩ := prints_fieldItems (List.nil_append _).symm (by simp) hall layout
  exact ⟨lines, hlines, by rw [hwrite, Layout.lines_extend], by rw [hwrite, Layout.depth_extend]⟩

/-- Members of two oneofs, a plain field and an `optional` one with a oneof of its own. -/
def mixedMessage : Message :=
  .mk
    { name? := some "M"
      fields :=
        [{ name? := some "red", number? := some 1, typeCode? := some 5, oneofIndex? := some 1 },
         { name? := some "id", number? := some 2, typeCode? := some 9 },
         { name? := some "width", number? := some 3, typeCode? := some 5, oneofIndex? := some 0 },
         { name? := some "note", number? := some 4, typeCode? := some 9, oneofIndex? := some 2
           proto3Optional? := some true },
         { name? := some "blue", number? := some 5, typeCode? := some 5, oneofIndex? := some 1 }]
      oneofs :=
        [{ name? := some "size" }, { name? := some "color" }, { name? := some "_note" }] } []

def mixedLines : List Line :=
  [⟨1, "oneof color \x7b"⟩, ⟨2, "int32 red = 1;"⟩, ⟨2, "int32 blue = 5;"⟩, ⟨1, "\x7d"⟩,
   ⟨1, "string id = 2;"⟩,
   ⟨1, "oneof size \x7b"⟩, ⟨2, "int32 width = 3;"⟩, ⟨1, "\x7d"⟩,
   ⟨1, "optional string note = 4;"⟩]

theorem regroups_mixedMessage : ∃ items pieces,
    fieldItems mixedMessage ⟨[], "", "M"⟩ [] mixedMessage.body.fields = .ok items ∧
      Regroups mixedMessage.body.fields.zipIdx pieces ∧
      (Layout.write items ⟨[], 1⟩).lines = mixedLines := by
  have hcomputed : (fieldItems mixedMessage ⟨[], "", "M"⟩ [] mixedMessage.body.fields).toOption.map
      (fun items => (Layout.write items ⟨[], 1⟩).lines) = some mixedLines := by
    decide
  obtain ⟨items, hitems, hlines⟩ := exists_ok_of_map_eq_some hcomputed
  obtain ⟨pieces, hpieces, -⟩ := regroups_of_fieldItems hitems
  exact ⟨items, pieces, hitems, hpieces, hlines⟩

end ProtoSource.Render
