import Mathlib.Data.List.Forall2
import Mathlib.Data.List.Perm.Basic
import Typeloom.Proofs.Render.Renderable

/-!
# Canonical signatures

The signatures of an outline depend on its classes and enums, but not on the order in which they
were added.  There is one block per package, with the classes and then the enums of the package,
and all of them are in the order of the code points of their names.
-/

namespace Typeloom

namespace Outline

variable {outline other : Outline}

/-- Whether an outline has the classes and enums of another one, under the same names and in the
same packages, in any order. -/
def Reorders (other outline : Outline) : Prop :=
  (other.entries.map TypeOutline.identity).Perm (outline.entries.map TypeOutline.identity)

/-- What is read off the identities of the entries is the same up to order. -/
theorem Reorders.perm_view (reorders : other.Reorders outline) {β : Type}
    (view : TypeDefinition × String × Json → β) :
    (other.entries.map fun entry => view entry.identity).Perm
      (outline.entries.map fun entry => view entry.identity) := by
  simpa only [List.map_map, Function.comp_def] using reorders.map view

theorem Reorders.modelNames (reorders : other.Reorders outline)
    (distinct : (outline.entries.map TypeOutline.modelName).Nodup) :
    (other.entries.map TypeOutline.modelName).Nodup :=
  (reorders.perm_view fun identity => identity.1.name).nodup_iff.mpr distinct

theorem Reorders.hasPackageTexts (reorders : other.Reorders outline)
    (haveTexts : outline.HasPackageTexts) : other.HasPackageTexts := by
  intro entry isEntry
  have occurs := (reorders.perm_view fun identity => identity.2.2).subset
    (List.mem_map_of_mem isEntry)
  obtain ⟨counterpart, isCounterpart, same⟩ := List.mem_map.mp occurs
  obtain ⟨text, isText⟩ := haveTexts counterpart isCounterpart
  exact ⟨text, same.symm.trans isText⟩

/-! ## References -/

theorem map_resolve?_eq_some_iff (distinct : (outline.entries.map TypeOutline.modelName).Nodup)
    {name : String} {identity : TypeDefinition × String × Json} :
    (outline.resolve? name).map TypeOutline.identity = some identity ↔
      identity ∈ outline.entries.map TypeOutline.identity ∧ identity.1.name = name := by
  simp only [Option.map_eq_some_iff, resolve?_eq_some_iff distinct, List.mem_map]
  constructor
  · rintro ⟨entry, ⟨isEntry, isName⟩, rfl⟩
    exact ⟨⟨entry, isEntry, rfl⟩, isName⟩
  · rintro ⟨⟨entry, isEntry, rfl⟩, isName⟩
    exact ⟨entry, ⟨isEntry, isName⟩, rfl⟩

/-- A model name leads to the same class or enum, whatever the order. -/
theorem Reorders.resolve? (reorders : other.Reorders outline)
    (distinct : (outline.entries.map TypeOutline.modelName).Nodup) (name : String) :
    (other.resolve? name).map TypeOutline.identity =
      (outline.resolve? name).map TypeOutline.identity := by
  ext identity
  rw [map_resolve?_eq_some_iff distinct, map_resolve?_eq_some_iff (reorders.modelNames distinct),
    reorders.mem_iff]

/-! ## Packages -/

theorem Reorders.perm_packages (reorders : other.Reorders outline)
    (haveTexts : outline.HasPackageTexts) : other.packages.Perm outline.packages := by
  have otherTexts := reorders.hasPackageTexts haveTexts
  refine (List.perm_ext_iff_of_nodup (nodup_packages otherTexts) (nodup_packages haveTexts)).mpr
    fun package => ?_
  rw [mem_packages_iff otherTexts, mem_packages_iff haveTexts]
  exact List.mem_map.symm.trans
    ((reorders.perm_view fun identity => identity.2.2).mem_iff.trans List.mem_map)

/-- The classes of an outline in a package, or its enums there. -/
def typesOf (outline : Outline) (classes : Bool) (package : Json) : List TypeOutline :=
  outline.entries.filter fun entry => entry.isClass == classes && entry.package.equal package

theorem classesOf_eq_typesOf (outline : Outline) (package : Json) :
    outline.classesOf package = outline.typesOf true package := by
  rw [classesOf, classes, List.filter_filter]
  exact List.filter_congr fun entry _ => by cases entry.isClass <;> simp

theorem enumsOf_eq_typesOf (outline : Outline) (package : Json) :
    outline.enumsOf package = outline.typesOf false package := by
  rw [enumsOf, enums, List.filter_filter]
  exact List.filter_congr fun entry _ => by cases entry.isClass <;> simp

theorem mem_typesOf (haveTexts : outline.HasPackageTexts) {classes : Bool} {package : Json}
    {entry : TypeOutline} :
    entry ∈ outline.typesOf classes package ↔
      entry ∈ outline.entries ∧ entry.isClass = classes ∧ entry.package = package := by
  rw [typesOf, List.mem_filter, Bool.and_eq_true, beq_iff_eq]
  refine and_congr_right fun isEntry => and_congr_right fun _ => ?_
  obtain ⟨text, isText⟩ := haveTexts entry isEntry
  rw [isText, Json.equal_text_iff, eq_comm]

/-- No two classes, and no two enums, of a package have the same name. -/
theorem nodup_names_typesOf (haveTexts : outline.HasPackageTexts)
    (distinct : (outline.entries.map fun entry => (entry.package, entry.name)).Nodup)
    (classes : Bool) (package : Json) :
    ((outline.typesOf classes package).map TypeOutline.name).Nodup := by
  have pairs : ((outline.typesOf classes package).map fun entry =>
      (entry.package, entry.name)).Nodup := distinct.sublist (List.filter_sublist.map _)
  refine List.Nodup.map_on (fun entry isEntry other isOther sameName => ?_) pairs.of_map
  have packages : entry.package = other.package :=
    ((mem_typesOf haveTexts).mp isEntry).2.2.trans ((mem_typesOf haveTexts).mp isOther).2.2.symm
  exact List.inj_on_of_nodup_map pairs isEntry isOther (Prod.ext packages sameName)

theorem Reorders.perm_typesOf (reorders : other.Reorders outline) (classes : Bool)
    (package : Json) :
    ((other.typesOf classes package).map TypeOutline.identity).Perm
      ((outline.typesOf classes package).map TypeOutline.identity) := by
  have ofIdentities := reorders.filter fun identity =>
    identity.1.class?.isSome == classes && identity.2.2.equal package
  rwa [List.filter_map, List.filter_map] at ofIdentities

/-- Sorted by their names, the classes or enums of a package are in one order only. -/
theorem Reorders.sortedBy_typesOf (reorders : other.Reorders outline)
    (haveTexts : outline.HasPackageTexts)
    (distinct : (outline.entries.map fun entry => (entry.package, entry.name)).Nodup)
    (classes : Bool) (package : Json) :
    (Text.sortedBy TypeOutline.name (other.typesOf classes package)).map TypeOutline.identity =
      (Text.sortedBy TypeOutline.name (outline.typesOf classes package)).map
        TypeOutline.identity := by
  have sorts (entries : List TypeOutline) :
      (Text.sortedBy TypeOutline.name entries).map TypeOutline.identity =
        Text.sortedBy (fun identity => identity.2.1) (entries.map TypeOutline.identity) :=
    Text.map_sortedBy (fun identity : TypeDefinition × String × Json => identity.2.1) _ entries
  have names := nodup_names_typesOf haveTexts distinct classes package
  rw [sorts, sorts]
  refine (Text.sortedBy_eq_of_perm (fun first isFirst second isSecond => ?_)
    (reorders.perm_typesOf classes package).symm).symm
  obtain ⟨entry, isEntry, rfl⟩ := List.mem_map.mp isFirst
  obtain ⟨namesake, isNamesake, rfl⟩ := List.mem_map.mp isSecond
  exact fun sameName => congrArg TypeOutline.identity
    (List.inj_on_of_nodup_map names isEntry isNamesake sameName)

end Outline

namespace Signature

variable {outline other : Outline}

/-! ## Texts of classes and enums -/

theorem fullName_reorders (reorders : other.Reorders outline)
    (distinct : (outline.entries.map TypeOutline.modelName).Nodup) (name : String) :
    fullName other name = fullName outline name := by
  have same := reorders.resolve? distinct name
  unfold fullName
  cases ofOther : other.resolve? name with
  | none =>
      rw [ofOther, Option.map_none, eq_comm, Option.map_eq_none_iff] at same
      rw [same]
  | some entry =>
      rw [ofOther, Option.map_some, eq_comm, Option.map_eq_some_iff] at same
      obtain ⟨counterpart, ofOutline, same⟩ := same
      simp only [TypeOutline.identity, Prod.mk.injEq] at same
      simp only [ofOutline, TypeOutline.fullName, same]

mutual

/-- The text of a type depends on an outline by the full names in it only. -/
theorem typeText_congr (names : ∀ name, fullName other name = fullName outline name)
    (type : TypeExpr) : typeText other type = typeText outline type := by
  obtain ⟨kind, name, arguments, constant⟩ := type
  cases kind with
  | classRef | enumRef => rw [typeText, typeText, names]
  | array =>
      cases arguments with
      | nil => rw [typeText, typeText]
      | cons item rest => rw [typeText, typeText, typeText_congr names item]
  | optional =>
      cases arguments with
      | nil => rw [typeText, typeText]
      | cons inner rest => rw [typeText, typeText, typeText_congr names inner]
  | tuple | union => rw [typeText, typeText, typeTexts_congr names arguments]
  | primitive | literal | any => rw [typeText, typeText]

theorem typeTexts_congr (names : ∀ name, fullName other name = fullName outline name)
    (types : List TypeExpr) : typeTexts other types = typeTexts outline types := by
  cases types with
  | nil => rw [typeTexts, typeTexts]
  | cons type rest =>
      rw [typeTexts, typeTexts, typeText_congr names type, typeTexts_congr names rest]

end

theorem entryText_congr (names : ∀ name, fullName other name = fullName outline name)
    {entry counterpart : TypeOutline}
    (same : entry.identity = counterpart.identity) :
    entryText other entry = entryText outline counterpart := by
  simp only [TypeOutline.identity, Prod.mk.injEq] at same
  obtain ⟨sameTarget, sameName, -⟩ := same
  simp only [entryText, classText, enumText, sameTarget, sameName, names, typeText_congr names]

theorem map_entryText_congr (names : ∀ name, fullName other name = fullName outline name)
    {entries counterparts : List TypeOutline}
    (same : entries.map TypeOutline.identity = counterparts.map TypeOutline.identity) :
    entries.map (entryText other) = counterparts.map (entryText outline) := by
  rw [← List.forall₂_eq_eq_eq, List.forall₂_map_left_iff, List.forall₂_map_right_iff] at same ⊢
  exact same.imp fun _ _ => entryText_congr names

/-! ## Order of classes and enums -/

theorem packagePieces_reorders (reorders : other.Reorders outline)
    (haveTexts : outline.HasPackageTexts)
    (modelNames : (outline.entries.map TypeOutline.modelName).Nodup)
    (distinct : (outline.entries.map fun entry => (entry.package, entry.name)).Nodup)
    (package : Json) : packagePieces other package = packagePieces outline package := by
  have texts (classes : Bool) :
      (Text.sortedBy TypeOutline.name (other.typesOf classes package)).map (entryText other) =
        (Text.sortedBy TypeOutline.name (outline.typesOf classes package)).map
          (entryText outline) :=
    map_entryText_congr (fullName_reorders reorders modelNames)
      (reorders.sortedBy_typesOf haveTexts distinct classes package)
  simp only [packagePieces, Outline.classesOf_eq_typesOf, Outline.enumsOf_eq_typesOf,
    List.map_append, texts]

/-- The signatures of an outline do not depend on the order of its classes and enums. -/
theorem pieces_reorders (reorders : other.Reorders outline)
    (haveTexts : outline.HasPackageTexts)
    (modelNames : (outline.entries.map TypeOutline.modelName).Nodup)
    (distinct : (outline.entries.map fun entry => (entry.package, entry.name)).Nodup) :
    pieces other = pieces outline := by
  obtain ⟨texts, areTexts⟩ := exists_packageTexts haveTexts
  obtain ⟨otherTexts, areOtherTexts⟩ := exists_packageTexts (reorders.hasPackageTexts haveTexts)
  have same : otherTexts.Perm texts := by
    have packages := reorders.perm_packages haveTexts
    rwa [areTexts, areOtherTexts,
      List.map_perm_map_iff fun first second equal => Json.text.inj equal] at packages
  rw [pieces, pieces, areTexts, areOtherTexts, sortedPackages_texts, sortedPackages_texts,
    Text.sorted_eq_of_perm same]
  exact List.flatMap_congr fun package _ =>
    packagePieces_reorders reorders haveTexts modelNames distinct package

/-! ## Blocks of packages -/

/-- A package in the signatures: its name, its classes and its enums. -/
structure Block where
  package : String
  classes : List TypeOutline
  enums : List TypeOutline

/-- The text of a package: a line that opens it, its classes, its enums and a line that closes
it. -/
def Block.text (outline : Outline) (block : Block) : Except Fault String := do
  let classes ← block.classes.mapM (entryText outline)
  let enums ← block.enums.mapM (entryText outline)
  let name := if block.package = "" then "<default>" else block.package
  return line 0 ("package " ++ name ++ " \x7b") ++ String.join classes ++ String.join enums ++
    line 0 "\x7d"

/-- Whether packages are those that have a class or enum in an outline, each of them once and with
exactly its classes and enums, and all in the order of their code points. -/
structure Lists (outline : Outline) (blocks : List Block) : Prop where
  packages_lt : blocks.Pairwise fun earlier later => earlier.package < later.package
  classes_lt : ∀ block ∈ blocks,
    block.classes.Pairwise fun earlier later => earlier.name < later.name
  enums_lt : ∀ block ∈ blocks,
    block.enums.Pairwise fun earlier later => earlier.name < later.name
  mem_packages : ∀ package, (∃ block ∈ blocks, block.package = package) ↔
    ∃ entry ∈ outline.entries, entry.package = .text package
  mem_classes : ∀ block ∈ blocks, ∀ entry, entry ∈ block.classes ↔
    entry ∈ outline.entries ∧ entry.isClass = true ∧ entry.package = .text block.package
  mem_enums : ∀ block ∈ blocks, ∀ entry, entry ∈ block.enums ↔
    entry ∈ outline.entries ∧ entry.isClass = false ∧ entry.package = .text block.package

/-- The line that opens a class or enum. -/
def opening (outline : Outline) (entry : TypeOutline) : String :=
  match entry.target with
  | .ofClass definition =>
      let base := definition.base.elim "" fun base => " extends " ++ fullName outline base
      line 1 ("class " ++ entry.name ++ base ++ " \x7b")
  | .ofEnum _ => line 1 ("enum " ++ entry.name ++ " \x7b")

/-- How many fields a class has, or how many members an enum. -/
def size (entry : TypeOutline) : Nat :=
  match entry.target with
  | .ofClass definition => definition.fields.length
  | .ofEnum definition => definition.members.length

/-- Whether a text is that of a class or enum: a line that opens it, a line for each field or member
and a line that closes it. -/
def Shows (outline : Outline) (entry : TypeOutline) (text : String) : Prop :=
  ∃ members : List String, members.length = size entry ∧
    text = opening outline entry ++ String.join (members.map (line 2)) ++ line 1 "\x7d"

/-- The package of a name in an outline. -/
def blockOf (outline : Outline) (package : String) : Block where
  package
  classes := Text.sortedBy TypeOutline.name (outline.typesOf true (.text package))
  enums := Text.sortedBy TypeOutline.name (outline.typesOf false (.text package))

theorem lists_blockOf (haveTexts : outline.HasPackageTexts)
    (distinct : (outline.entries.map fun entry => (entry.package, entry.name)).Nodup)
    {texts : List String} (areTexts : outline.packages = texts.map .text) :
    Lists outline ((Text.sorted texts).map (blockOf outline)) := by
  have once : texts.Nodup := (areTexts ▸ Outline.nodup_packages haveTexts).of_map
  have names_lt (classes : Bool) (package : String) :=
    Text.pairwise_lt_sortedBy
      (Outline.nodup_names_typesOf haveTexts distinct classes (.text package))
  constructor
  case packages_lt => exact List.pairwise_map.mpr (Text.pairwise_lt_sorted once)
  case classes_lt => exact List.forall_mem_map.mpr fun package _ => names_lt true package
  case enums_lt => exact List.forall_mem_map.mpr fun package _ => names_lt false package
  case mem_packages =>
    intro package
    rw [← Outline.mem_packages_iff haveTexts, areTexts]
    simp [blockOf]
  case mem_classes =>
    refine List.forall_mem_map.mpr fun package _ entry => ?_
    rw [blockOf, Text.mem_sortedBy, Outline.mem_typesOf haveTexts]
  case mem_enums =>
    refine List.forall_mem_map.mpr fun package _ entry => ?_
    rw [blockOf, Text.mem_sortedBy, Outline.mem_typesOf haveTexts]

/-- Pieces that all exist, one after the other. -/
def joined (pieces : List (Except Fault String)) : Except Fault String := do
  return String.join (← pieces.mapM id)

theorem joined_append (front back : List (Except Fault String)) :
    joined (front ++ back) = do return (← joined front) ++ (← joined back) := by
  simp only [joined, List.mapM_append, bind_assoc, pure_bind, String.join_append]

theorem joined_cons (text : String) (rest : List (Except Fault String)) :
    joined (.ok text :: rest) = do return text ++ (← joined rest) := by
  rw [joined, List.mapM_cons]
  simp only [joined, bind_assoc, pure_bind, ← String.join_cons]
  rfl

theorem joined_map {α : Type} (f : α → Except Fault String) (items : List α) :
    joined (items.map f) = do return String.join (← items.mapM f) := by
  rw [joined, List.mapM_map, Function.id_comp]

theorem joined_flatMap {α : Type} (f : α → List (Except Fault String)) (items : List α) :
    joined (items.flatMap f) = do
      return String.join (← items.mapM fun item => joined (f item)) := by
  induction items with
  | nil => rfl
  | cons item rest ih =>
      simp only [List.flatMap_cons, joined_append, ih, List.mapM_cons, bind_assoc, pure_bind,
        String.join_cons]

theorem joined_packagePieces (outline : Outline) (package : String) :
    joined (packagePieces outline (.text package)) = (blockOf outline package).text outline := by
  have opening : (if (Json.text package).isTruthy then (Json.text package).inMessage
      else "<default>") = if package = "" then "<default>" else package := by
    by_cases isDefault : package = "" <;> simp [Json.isTruthy, Json.inMessage, isDefault]
  simp only [packagePieces, blockOf, Block.text, opening, Outline.classesOf_eq_typesOf,
    Outline.enumsOf_eq_typesOf, List.map_append, List.cons_append, joined_cons, joined_append,
    joined_map, bind_assoc, pure_bind, String.append_assoc]
  rfl

theorem dump_eq_blocks {texts : List String} (areTexts : outline.packages = texts.map .text) :
    dump outline = do
      return String.join
        (← ((Text.sorted texts).map (blockOf outline)).mapM (Block.text outline)) := by
  have areJoined : dump outline = joined (pieces outline) := rfl
  rw [areJoined, pieces, areTexts, sortedPackages_texts]
  simp only [joined_flatMap, List.mapM_map, Function.comp_def, joined_packagePieces]

theorem exists_lines_of_mapM {α : Type} {f : α → Except Fault String} {items : List α}
    {texts : List String}
    (areLines : ∀ item text, f item = .ok text → text ∈ Set.range (line 2))
    (mapped : items.mapM f = .ok texts) :
    ∃ inners : List String, inners.length = items.length ∧ inners.map (line 2) = texts := by
  have inRange : texts ∈ Set.range (List.map (line 2)) := by
    rw [Set.range_list_map]
    intro text occurs
    obtain ⟨item, -, yields⟩ := (mem_of_mapM_eq_ok mapped).mp occurs
    exact areLines item text yields
  obtain ⟨inners, rfl⟩ := inRange
  refine ⟨inners, ?_, rfl⟩
  have counted := congrArg List.length
    (map_of_mapM_eq_ok (fun _ _ _ => rfl : ∀ item text, f item = .ok text → () = ()) mapped)
  simpa using counted

theorem shows_entryText {entry : TypeOutline} {text : String}
    (yields : entryText outline entry = .ok text) : Shows outline entry text := by
  rw [entryText] at yields
  rw [Shows, opening, size]
  cases isTarget : entry.target with
  | ofClass definition =>
      rw [isTarget] at yields
      obtain ⟨_, _, base, _, _, _⟩ := definition
      obtain ⟨fields, areFields, yields⟩ := exists_of_bind_eq_ok yields
      cases yields
      obtain ⟨members, sameLength, rfl⟩ := exists_lines_of_mapM (fun field text yields => by
        obtain ⟨type, -, yields⟩ := exists_of_bind_eq_ok yields
        cases yields
        exact ⟨_, rfl⟩) areFields
      refine ⟨members, sameLength, ?_⟩
      cases base <;> rfl
  | ofEnum definition =>
      rw [isTarget] at yields
      obtain ⟨lines, areLines, yields⟩ := exists_of_bind_eq_ok yields
      cases yields
      obtain ⟨members, sameLength, rfl⟩ := exists_lines_of_mapM (fun member text yields => by
        obtain ⟨name, -, yields⟩ := exists_of_bind_eq_ok yields
        cases yields
        exact ⟨_, rfl⟩) areLines
      exact ⟨members, sameLength, rfl⟩

/-- Two outlines with the same classes and enums, under the same names and in the same packages, in
any order.  The packages are texts, no two types share their package and their name, and no two
share their model name.  Then both outlines have the same signatures: one block per package that has
a type, with exactly the classes and then exactly the enums of the package, everything in the order
of the code points of the names.  They can be written if all fields have well-formed types and all
members of enums have texts as names. -/
theorem dump_canonical {outline other : Outline} (reorders : other.Reorders outline)
    (haveTexts : outline.HasPackageTexts)
    (distinct : (outline.entries.map fun entry => (entry.package, entry.name)).Nodup)
    (modelNames : (outline.entries.map TypeOutline.modelName).Nodup) :
    pieces other = pieces outline ∧ dump other = dump outline ∧
      (∃ blocks, Lists outline blocks ∧
        dump outline = do return String.join (← blocks.mapM (Block.text outline))) ∧
      (∀ entry text, entryText outline entry = .ok text → Shows outline entry text) ∧
      ((∀ entry ∈ outline.entries, Writable entry) → ∃ text, dump outline = .ok text) := by
  have same := pieces_reorders reorders haveTexts modelNames distinct
  obtain ⟨texts, areTexts⟩ := exists_packageTexts haveTexts
  refine ⟨same, by rw [dump, dump, same], ⟨_, ?lists, dump_eq_blocks areTexts⟩,
    fun _ _ => shows_entryText, exists_dump haveTexts⟩
  exact lists_blockOf haveTexts distinct areTexts

/-- A class in the default package, and a class that is derived from it and an enum in a named
one. -/
def orders : Outline where
  entries := [
    { target := .ofEnum
        { name := "State", package := .text "shop", valueType := "string"
          members := [(.text "OPEN", .text "open")], description := .null, source := "" }
      name := "State", package := .text "shop" },
    { target := .ofClass
        { name := "Order", package := .text "shop", base := some "Base"
          fields := [{ name := "state", type := (TypeExpr.memberOf "State").optional
                       required := false, default? := none, description := .null }]
          description := .null, source := "" }
      name := "Order", package := .text "shop" },
    { target := .ofClass
        { name := "Base", package := .text "", base := none, fields := [], description := .null
          source := "" }
      name := "Base", package := .text "" }]

/-- These classes and enums, added in the reverse order. -/
def reversedOrders : Outline where
  entries := orders.entries.reverse

/-- Both outlines have one text. -/
theorem dump_canonical_orders :
    reversedOrders.Reorders orders ∧ orders.HasPackageTexts ∧
      (orders.entries.map fun entry => (entry.package, entry.name)).Nodup ∧
      (orders.entries.map TypeOutline.modelName).Nodup ∧
      (∀ entry ∈ orders.entries, Writable entry) ∧
      ∃ text, dump orders = .ok text ∧ dump reversedOrders = .ok text := by
  have reorders : reversedOrders.Reorders orders :=
    (List.reverse_perm orders.entries).map TypeOutline.identity
  have haveTexts : orders.HasPackageTexts := by simp [Outline.HasPackageTexts, orders]
  have distinct : (orders.entries.map fun entry => (entry.package, entry.name)).Nodup := by
    decide
  have modelNames : (orders.entries.map TypeOutline.modelName).Nodup := by decide
  have optionalState : (TypeExpr.memberOf "State").optional.Formed :=
    .single "" .null (by simp) (.leaf "State" .null (by simp))
  have writable : ∀ entry ∈ orders.entries, Writable entry := by
    simp [orders, Writable, optionalState, Json.IsText]
  obtain ⟨-, same, -, -, exists_text⟩ := dump_canonical reorders haveTexts distinct modelNames
  obtain ⟨text, isText⟩ := exists_text writable
  exact ⟨reorders, haveTexts, distinct, modelNames, writable, text, isText, same.trans isText⟩

end Signature

end Typeloom
