import Typeloom.Proofs.Render.ClassFiles

/-!
# Comments

The description of a field stands behind a mark in front of the field, with a blank for every line
feed in it.  Carriage returns are left as they are, and a physical line ends at them too: what
stands behind one is no part of the comment.
-/

namespace Typeloom

namespace Text

/-! ## Physical lines -/

/-- The physical lines of a Python source.  They end at line feeds, at carriage returns and at pairs
of both. -/
def physicalLines (text : List Char) : List (List Char) :=
  pieces '\n' (unifyLineEnds text)

/-- A text without the carriage return at its end, if it has one. -/
def withoutReturn : List Char → List Char
  | [] => []
  | ['\r'] => []
  | character :: rest => character :: withoutReturn rest

variable {before behind text : List Char} {character : Char}

theorem unifyLineEnds_cons (noReturn : character ≠ '\r') :
    unifyLineEnds (character :: text) = character :: unifyLineEnds text := by
  rw [unifyLineEnds]
  · exact fun _ same => absurd same noReturn
  · exact noReturn

theorem unifyLineEnds_return_cons (noPair : text.head? ≠ some '\n') :
    unifyLineEnds ('\r' :: text) = '\n' :: unifyLineEnds text := by
  rw [unifyLineEnds]
  rintro rest rfl
  exact noPair rfl

theorem withoutReturn_cons (notAlone : character = '\r' → text ≠ []) :
    withoutReturn (character :: text) = character :: withoutReturn text := by
  rw [withoutReturn]
  exact notAlone

theorem withoutReturn_isPrefix (text : List Char) : withoutReturn text <+: text := by
  induction text using withoutReturn.induct with
  | case1 => exact List.prefix_rfl
  | case2 => exact List.nil_prefix
  | case3 character rest notAlone ih =>
      rw [withoutReturn_cons notAlone]
      exact List.cons_prefix_cons.mpr ⟨rfl, ih⟩

theorem mem_withoutReturn_iff : '\r' ∈ withoutReturn text ↔ '\r' ∈ text.dropLast := by
  induction text using withoutReturn.induct with
  | case1 => rfl
  | case2 => rfl
  | case3 character rest notAlone ih =>
      rw [withoutReturn_cons notAlone, List.mem_cons, ih]
      cases rest with
      | nil => simpa using fun same => notAlone same.symm rfl
      | cons next more => rw [List.dropLast_cons_cons, List.mem_cons]

theorem withoutReturn_append (noReturn : '\r' ∉ before) :
    withoutReturn (before ++ text) = before ++ withoutReturn text := by
  induction before with
  | nil => rfl
  | cons character rest ih =>
      obtain ⟨differs, notInRest⟩ := not_or.mp (mt List.mem_cons.mpr noReturn)
      rw [List.cons_append, withoutReturn_cons fun isReturn => absurd isReturn.symm differs,
        ih notInRest, List.cons_append]

/-- A carriage return and a line feed behind it end one line. -/
theorem unifyLineEnds_append_lineFeed (before behind : List Char) :
    unifyLineEnds (before ++ '\n' :: behind) =
      unifyLineEnds (withoutReturn before) ++ '\n' :: unifyLineEnds behind := by
  induction before using unifyLineEnds.induct with
  | case1 => exact unifyLineEnds_cons (by decide)
  | case2 rest ih =>
      rw [withoutReturn_cons fun _ => List.cons_ne_nil _ _,
        withoutReturn_cons fun isReturn => absurd isReturn (by decide)]
      simp only [List.cons_append, unifyLineEnds, ih]
  | case3 rest noPair ih =>
      cases rest with
      | nil => rfl
      | cons next rest =>
          have noFeed : next ≠ '\n' := by
            rintro rfl
            exact noPair rest rfl
          have noFeed' : (withoutReturn (next :: rest)).head? ≠ some '\n' := by
            intro isFeed
            obtain ⟨more, isCons⟩ := List.head?_eq_some_iff.mp isFeed
            have isPrefix := withoutReturn_isPrefix (next :: rest)
            rw [isCons, List.cons_prefix_cons] at isPrefix
            exact noFeed isPrefix.1.symm
          have noFeed'' : (next :: rest ++ '\n' :: behind).head? ≠ some '\n' := by
            simpa using noFeed
          rw [withoutReturn_cons fun _ => List.cons_ne_nil _ _, List.cons_append,
            unifyLineEnds_return_cons noFeed'', unifyLineEnds_return_cons noFeed', ih]
          rfl
  | case4 character rest noPair noReturn ih =>
      rw [withoutReturn_cons fun isReturn => absurd isReturn noReturn, List.cons_append,
        unifyLineEnds_cons noReturn, unifyLineEnds_cons noReturn, ih]
      rfl

theorem physicalLines_append_lineFeed (before behind : List Char) :
    physicalLines (before ++ '\n' :: behind) =
      physicalLines (withoutReturn before) ++ physicalLines behind := by
  rw [physicalLines, unifyLineEnds_append_lineFeed, pieces_append_cons]
  rfl

/-- Without line feeds the carriage returns are where lines end. -/
theorem physicalLines_of_notMem (noFeed : '\n' ∉ text) : physicalLines text = pieces '\r' text := by
  induction text with
  | nil => rfl
  | cons character rest ih =>
      obtain ⟨differs, notInRest⟩ := not_or.mp (mt List.mem_cons.mpr noFeed)
      have ofRest : pieces '\n' (unifyLineEnds rest) = pieces '\r' rest := ih notInRest
      by_cases isReturn : character = '\r'
      · subst isReturn
        have noPair : rest.head? ≠ some '\n' := fun isFeed =>
          notInRest (List.mem_of_mem_head? isFeed)
        rw [physicalLines, unifyLineEnds_return_cons noPair, pieces, if_pos rfl, ofRest, pieces,
          if_pos rfl]
      · rw [physicalLines, unifyLineEnds_cons isReturn, pieces, if_neg (Ne.symm differs), ofRest,
          pieces, if_neg isReturn]

theorem pieces_cons_of_ne {mark : Char} (differs : character ≠ mark) :
    pieces mark (character :: text) = (pieces mark text).modifyHead (character :: ·) := by
  rw [pieces, if_neg differs]
  obtain ⟨piece, more, isCons⟩ := List.exists_cons_of_ne_nil (pieces_ne_nil mark text)
  rw [isCons]
  rfl

/-- What stands in front of all marks goes to the first piece. -/
theorem pieces_append {mark : Char} (notIn : mark ∉ before) :
    pieces mark (before ++ text) = (pieces mark text).modifyHead (before ++ ·) := by
  induction before with
  | nil => exact (congrFun List.modifyHead_id _).symm
  | cons character rest ih =>
      obtain ⟨differs, notInRest⟩ := not_or.mp (mt List.mem_cons.mpr notIn)
      rw [List.cons_append, pieces_cons_of_ne (Ne.symm differs), ih notInRest,
        List.modifyHead_modifyHead]
      rfl

/-- The lines that a text without line feeds makes behind a mark and in front of a line feed. -/
theorem physicalLines_marked {mark : List Char} (noReturn : '\r' ∉ mark) (noFeed : '\n' ∉ mark)
    (noFeed' : '\n' ∉ text) :
    physicalLines (withoutReturn (mark ++ text)) =
      (pieces '\r' (withoutReturn text)).modifyHead (mark ++ ·) := by
  have noneLeft : '\n' ∉ withoutReturn text := fun occurs =>
    noFeed' ((withoutReturn_isPrefix text).subset occurs)
  rw [withoutReturn_append noReturn, physicalLines_of_notMem, pieces_append noReturn]
  rw [List.mem_append]
  exact not_or.mpr ⟨noFeed, noneLeft⟩

theorem notMem_replaceCharacter {old new : Char} (differ : new ≠ old) (text : String) :
    old ∉ (replaceCharacter old new text).toList := by
  rw [replaceCharacter, String.toList_ofList]
  intro occurs
  obtain ⟨character, -, same⟩ := List.mem_map.mp occurs
  split at same
  · exact differ same
  · contradiction

theorem mem_map_replace_iff {old new character : Char} {text : List Char} (notOld : character ≠ old)
    (notNew : character ≠ new) :
    character ∈ text.map (fun other => if other = old then new else other) ↔ character ∈ text := by
  constructor
  · intro occurs
    obtain ⟨other, inText, same⟩ := List.mem_map.mp occurs
    split at same
    · exact absurd same.symm notNew
    · exact same ▸ inText
  · intro inText
    exact List.mem_map.mpr ⟨character, inText, if_neg notOld⟩

/-- There is one piece just if the mark does not occur. -/
theorem eq_nil_iff_of_pieces {mark : Char} {piece : List Char} {more : List (List Char)}
    (arePieces : pieces mark text = piece :: more) : more = [] ↔ mark ∉ text := by
  constructor
  · rintro rfl occurs
    obtain ⟨before, behind, rfl⟩ := List.mem_iff_append.mp occurs
    rw [pieces_append_cons] at arePieces
    have lengths := congrArg List.length arePieces
    have ofBefore := List.length_pos_of_ne_nil (pieces_ne_nil mark before)
    have ofBehind := List.length_pos_of_ne_nil (pieces_ne_nil mark behind)
    rw [List.length_append, List.length_singleton] at lengths
    omega
  · intro notIn
    rw [pieces_of_notMem notIn] at arePieces
    exact (List.cons.inj arePieces).2.symm

end Text

namespace Python

/-! ## Fields with descriptions -/

open Text

variable {outline : Outline} {config : Config} {entry : TypeOutline} {definition : ClassDefinition}
  {field : FieldDefinition} {declared : Declared} {module : ClassModule} {text : String}

/-- Whether the last line of a text is ended. -/
def IsClosed (text : String) : Prop :=
  ∃ start, text = line start

theorem isClosed_append (front : String) {back : String} (isClosed : IsClosed back) :
    IsClosed (front ++ back) := by
  obtain ⟨start, rfl⟩ := isClosed
  exact ⟨front ++ start, (String.append_assoc ..).symm⟩

theorem isClosed_append_join {front : String} {parts : List String} (isClosed : IsClosed front)
    (areClosed : ∀ part ∈ parts, IsClosed part) : IsClosed (front ++ String.join parts) := by
  induction parts generalizing front with
  | nil => simpa using isClosed
  | cons part rest ih =>
      obtain ⟨ofPart, ofRest⟩ := List.forall_mem_cons.mp areClosed
      rw [String.join_cons, ← String.append_assoc]
      exact ih (isClosed_append front ofPart) ofRest

theorem isClosed_fieldText (declared : Declared) : IsClosed (fieldText declared) :=
  isClosed_append _ ⟨_, rfl⟩

/-- The fields of a module begin at the start of a line. -/
theorem exists_isClosed_of_text (isText : module.text = .ok text)
    (someFields : module.fields ≠ []) :
    ∃ front, IsClosed front ∧ text = front ++ String.join (module.fields.map fieldText) := by
  obtain ⟨description, -, last⟩ := exists_of_bind_eq_ok isText
  obtain rfl := Except.ok.inj last
  refine ⟨_, ?_, rfl⟩
  have notEmpty : module.fields.isEmpty = false := by simpa using someFields
  cases description with
  | none =>
      simp only [notEmpty, Bool.false_eq_true, if_false, String.append_empty]
      exact isClosed_append _ ⟨_, rfl⟩
  | some docstring =>
      simp only [notEmpty, Bool.false_eq_true, if_false]
      exact isClosed_append _ (isClosed_append _ ⟨"", rfl⟩)

/-- What a class module has for a field stands behind the end of a line. -/
theorem exists_text_eq_fieldText (isText : module.text = .ok text)
    (isDeclared : declared ∈ module.fields) :
    ∃ top bottom, text = line top ++ fieldText declared ++ bottom := by
  obtain ⟨head, isClosed, rfl⟩ := exists_isClosed_of_text isText (List.ne_nil_of_mem isDeclared)
  obtain ⟨front, behind, areFields⟩ := List.mem_iff_append.mp isDeclared
  have areClosed : ∀ part ∈ front.map fieldText, IsClosed part := by
    intro part occurs
    obtain ⟨other, -, rfl⟩ := List.mem_map.mp occurs
    exact isClosed_fieldText other
  obtain ⟨top, isTop⟩ := isClosed_append_join isClosed areClosed
  refine ⟨top, String.join (behind.map fieldText), ?_⟩
  rw [← isTop, areFields, List.map_append, List.map_cons, String.join_append, String.join_cons]
  simp only [String.append_assoc]

theorem description_of_declareField (declares : declareField outline field = .ok declared) :
    declared.description = field.description := by
  obtain ⟨type, -, last⟩ := exists_of_bind_eq_ok declares
  cases last
  rfl

theorem fieldText_of_isTruthy (described : declared.description.isTruthy = true) :
    fieldText declared =
      line ("    # " ++ replaceCharacter '\n' ' ' declared.description.inMessage) ++
        line ("    " ++ declared.declaration) := by
  rw [fieldText, if_pos described]

/-- The comment of a field consists of the lines that carriage returns make of its description.
It is one line if and only if there is no carriage return in front of the last character. -/
theorem exists_comment_of_renderClass
    (renders : renderClass outline config entry definition = .ok text)
    (isField : field ∈ definition.fields) (described : field.description.isTruthy = true) :
    ∃ declared top bottom first rest,
      declareField outline field = .ok declared ∧
      text = line top ++ fieldText declared ++ bottom ∧
      physicalLines text.toList =
        physicalLines (withoutReturn top.toList) ++
          (("    # ".toList ++ first) :: rest) ++
          physicalLines (line ("    " ++ declared.declaration) ++ bottom).toList ∧
      first :: rest = pieces '\r' (withoutReturn
        (replaceCharacter '\n' ' ' field.description.inMessage).toList) ∧
      (rest = [] ↔ '\r' ∉ field.description.inMessage.toList.dropLast) := by
  obtain ⟨module, isModule, isText⟩ := exists_of_bind_eq_ok renders
  obtain ⟨areFields, -⟩ := classModule_inversion isModule
  have isOrdered : field ∈ orderedFields config definition.fields := mem_orderedFields.mpr isField
  obtain ⟨declared, declares⟩ := exists_mapM_eq_ok_iff.mp ⟨_, areFields⟩ field isOrdered
  have isDeclared : declared ∈ module.fields :=
    (mem_of_mapM_eq_ok areFields).mpr ⟨field, isOrdered, declares⟩
  obtain ⟨top, bottom, isSplit⟩ := exists_text_eq_fieldText isText isDeclared
  obtain ⟨first, rest, arePieces⟩ := List.exists_cons_of_ne_nil (pieces_ne_nil '\r'
    (withoutReturn (replaceCharacter '\n' ' ' field.description.inMessage).toList))
  refine ⟨declared, top, bottom, first, rest, declares, isSplit, ?lines, arePieces.symm, ?single⟩
  case lines =>
    have sameDescription := description_of_declareField declares
    have noFeed : '\n' ∉ (replaceCharacter '\n' ' ' field.description.inMessage).toList :=
      notMem_replaceCharacter (show ' ' ≠ '\n' by decide) _
    have ofComment := physicalLines_marked (show '\r' ∉ "    # ".toList by decide)
      (show '\n' ∉ "    # ".toList by decide) noFeed
    have isText : text.toList = top.toList ++ '\n' ::
        (("    # ".toList ++ (replaceCharacter '\n' ' ' field.description.inMessage).toList) ++
          '\n' :: (line ("    " ++ declared.declaration) ++ bottom).toList) := by
      rw [isSplit, fieldText_of_isTruthy (sameDescription ▸ described), sameDescription]
      simp [line]
    rw [isText, physicalLines_append_lineFeed, physicalLines_append_lineFeed, ofComment, arePieces,
      List.append_assoc]
    rfl
  case single =>
    rw [eq_nil_iff_of_pieces arePieces, mem_withoutReturn_iff, replaceCharacter,
      String.toList_ofList, ← List.map_dropLast, mem_map_replace_iff (by decide) (by decide)]

/-- A class with a field whose description has line ends of both kinds. -/
def remarked : ClassDefinition where
  name := "Remarked"
  package := .text ""
  base := none
  fields := [
    { name := "size", type := .anything, required := false, default? := none
      description := .text "in\nbytes\rimport os\r" }]
  description := .null
  source := ""

def remarkedEntry : TypeOutline where
  target := .ofClass remarked
  name := "Remarked"
  package := .text ""

/-- The comment on the size goes over two lines. -/
theorem exists_comment_remarked : ∃ text declared top bottom first rest,
    renderClass { entries := [remarkedEntry] } {} remarkedEntry remarked = .ok text ∧
    text = line top ++ fieldText declared ++ bottom ∧
    physicalLines text.toList =
      physicalLines (withoutReturn top.toList) ++ (("    # ".toList ++ first) :: rest) ++
        physicalLines (line ("    " ++ declared.declaration) ++ bottom).toList ∧
    first :: rest = ["in bytes".toList, "import os".toList] := by
  obtain ⟨text, renders⟩ : ∃ text,
      renderClass { entries := [remarkedEntry] } {} remarkedEntry remarked = .ok text :=
    ⟨_, rfl⟩
  obtain ⟨declared, top, bottom, first, rest, -, isSplit, areLines, arePieces, -⟩ :=
    exists_comment_of_renderClass renders List.mem_cons_self (by decide)
  exact ⟨text, declared, top, bottom, first, rest, renders, isSplit, areLines,
    arePieces.trans (by decide +kernel)⟩

end Python

/-! ## A description that becomes code -/

/-- The definition of a class with a property whose description has a carriage return. -/
def remark : Json.Members :=
  [("definitions", .object
    [("Item", .object
      [("properties", .object
        [("size", .object
          [("type", .text "string"), ("description", .text "in bytes\rimport os")])])])])]

/-- A document with this definition. -/
def readRemark (_ : String) : Except Fault (List UInt8) :=
  .ok ("\x7b\"definitions\": \x7b\"Item\": \x7b\"properties\": \x7b\"size\": " ++
    "\x7b\"type\": \"string\", \"description\": \"in bytes\\rimport os\"" ++
    "\x7d\x7d\x7d\x7d\x7d").toUTF8.toList

/-- The lines of the module of this class. -/
def remarkLines : List (List Char) :=
  ["from __future__ import annotations", "", "from dataclasses import dataclass", "", "",
    "@dataclass(kw_only=True)", "class Item:", "    # in bytes", "import os",
    "    size: str | None = None", ""].map String.toList

/-- What stands behind the carriage return is a line of its own. -/
theorem physicalLines_remark : ∃ model between code after file text,
    (Loading.loadModel readRemark [] ["file:///a"] (.ok {})).onChannel {} =
        (.ok (some model), between) ∧
      (GeneratedCode.generate {} [] model).onChannel {} = (.ok (some code), after) ∧
      file ∈ code.files ∧ code.render {} file = .ok text ∧
      Text.physicalLines text.toList = remarkLines ∧ "import os".toList ∈ remarkLines := by
  have isRead : Forest.members? readRemark "file:///a" = some remark := by decide +kernel
  have alone : Forest.externalReferences (.object remark) = [] := by decide +kernel
  obtain ⟨model, between, loads, view⟩ : ∃ model between,
      (Loading.loadModel readRemark [] ["file:///a"] (.ok {})).onChannel {} =
        (.ok (some model), between) ∧
      (((GeneratedCode.generate {} [] model).onChannel {}).1.toOption.join.map fun code =>
        code.files.head?.bind fun file => (code.render {} file).toOption.map fun text =>
          Text.physicalLines text.toList) = some (some remarkLines) := by
    apply Reporting.exists_onChannel_eq_some
    rw [Loading.loadModel, Reporting.onChannel_bind, Loading.onChannel_alone isRead alone]
    decide +kernel
  obtain ⟨code, after, generates, view⟩ := Reporting.exists_onChannel_eq_some view
  obtain ⟨file, isFirst, view⟩ := Option.bind_eq_some_iff.mp view
  obtain ⟨text, isText, areLines⟩ := Option.map_eq_some_iff.mp view
  exact ⟨model, between, code, after, file, text, loads, generates, List.mem_of_head? isFirst,
    Except.eq_ok_of_toOption isText, areLines, by decide⟩

end Typeloom
