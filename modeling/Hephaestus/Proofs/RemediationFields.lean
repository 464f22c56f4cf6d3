import Mathlib.Data.Prod.Lex
import Hephaestus.Automation.SourceReceipt

/-!
# Fields of a remediation record that was written and read

A record is written with its fields sorted, at every depth, and read as it was
written. For each shape a field has there is a lemma that says the reader gets
back what the writer had: texts, lists of texts, lists of pairs, and the reply map,
whose items come back in the order they were in because they had to be sorted.
Last comes the source receipt, where the reader's casts do nothing to values of the
right type.
-/

namespace Hephaestus.Automation.Remediation

open Hephaestus.Lib Hephaestus.Lib.JsonText Hephaestus.Automation.Delivery

variable {floats : FloatText} {py : PyCasts}

/-! ## Shapes -/

theorem asStr?_jsonText (t : Text) : (jsonText t).asStr?.map String.toList = some t := by
  simp [jsonText, Json.asStr?]

theorem text_jsonText (py : PyText) (t : Text) : py.text (jsonText t) = t := by
  simp [jsonText, PyText.text]

theorem sortedItems_map {α : Type} {f : α → Json} (h : ∀ a, sorted (f a) = f a) (l : List α) :
    sortedItems (l.map f) = l.map f := by
  induction l with
  | nil => rfl
  | cons a l ih => rw [List.map_cons, sortedItems, h, ih]

theorem sorted_arr_map {α : Type} {f : α → Json} (h : ∀ a, sorted (f a) = f a) (l : List α) :
    sorted (.arr (l.map f)) = .arr (l.map f) := by
  rw [sorted, sortedItems_map h]

theorem sorted_texts (l : List Text) : sorted (.arr (l.map jsonText)) = .arr (l.map jsonText) :=
  sorted_arr_map (fun _ => rfl) l

theorem sorted_optionalText (t : Option Text) : sorted (optionalText t) = optionalText t := by
  cases t with
  | none => rfl
  | some t => rfl

/-- A pair of texts as a list. -/
def pairJson (item : Text × Text) : Json := .arr [jsonText item.1, jsonText item.2]

theorem sorted_pairs (l : List (Text × Text)) :
    sorted (.arr (l.map pairJson)) = .arr (l.map pairJson) :=
  sorted_arr_map (fun _ => rfl) l

theorem plainItems_map {α : Type} {f : α → Json} (h : ∀ a, Plain (f a)) (l : List α) :
    PlainItems (l.map f) := by
  induction l with
  | nil => trivial
  | cons a l ih => exact ⟨h a, ih⟩

theorem plain_optionalText (t : Option Text) : Plain (optionalText t) := by
  cases t with
  | none => trivial
  | some t => trivial

theorem plain_jsonText (t : Text) : Plain (jsonText t) := trivial

theorem plain_int (n : Int) : Plain (.int n) := trivial

theorem plain_bool (b : Bool) : Plain (.bool b) := trivial

theorem plain_texts (l : List Text) : Plain (.arr (l.map jsonText)) :=
  plainItems_map plain_jsonText l

theorem plain_pairs (l : List (Text × Text)) : Plain (.arr (l.map pairJson)) :=
  plainItems_map (f := pairJson) (fun _ => ⟨trivial, trivial, trivial⟩) l

/-- The text of a plain value is as long in bytes as it is in characters. -/
theorem utf8Length_dumps {value : Json} (h : Plain value) :
    utf8Length (dumps floats value) = (render floats value).length := by
  rw [utf8Length, Sha256.length_encodeUtf8_of_ascii, length_dumps]
  intro c hc
  have hprintable := isPrintable_render floats h.sorted c hc
  simp only [isPrintable, Bool.and_eq_true, decide_eq_true_eq] at hprintable
  omega

theorem mapM_map_some {α β γ : Type} {f : α → β} {g : β → Option γ} {k : α → γ}
    (h : ∀ a, g (f a) = some (k a)) (l : List α) : (l.map f).mapM g = some (l.map k) := by
  induction l with
  | nil => rfl
  | cons a l ih => simp [h, ih]

theorem textList_texts (l : List Text) : textList (.arr (l.map jsonText)) = some l := by
  have hmap := mapM_map_some (f := jsonText)
    (g := fun item : Json => item.asStr?.map String.toList) (k := id) asStr?_jsonText l
  rw [List.map_id] at hmap
  exact hmap

theorem pairList_pairs (l : List (Text × Text)) : pairList (.arr (l.map pairJson)) = some l := by
  unfold pairList
  refine (mapM_map_some (f := pairJson) (k := id) (fun item => ?_) l).trans ?_
  · simp [pairJson, jsonText]
  · rw [List.map_id]

/-! ## Pairs in order -/

/-- The key `pairLe` compares by. -/
def pairKey (a : Text × Text) : Lex (List Nat × List Nat) :=
  toLex (a.1.map Char.toNat, a.2.map Char.toNat)

theorem toNat_injective : Function.Injective (List.map Char.toNat) :=
  List.map_injective_iff.mpr fun _ _ => Char.toNat_inj.mp

theorem pairLe_iff {a b : Text × Text} : pairLe a b = true ↔ pairKey a ≤ pairKey b := by
  unfold pairLe pairKey
  rw [Prod.Lex.le_iff, Bool.or_eq_true, Text.sortsBefore_iff, Bool.and_eq_true, decide_eq_true_eq,
    Bool.not_eq_true', Text.not_sortsBefore_iff]
  simp only [ofLex_toLex, toNat_injective.eq_iff]

theorem pairwise_sortedPairs (pairs : List (Text × Text)) :
    (sortedPairs pairs).Pairwise fun a b => pairLe a b = true := by
  have htotal : Std.Total fun a b : Text × Text => pairLe a b = true := by
    refine ⟨fun a b => ?_⟩
    simp only [pairLe_iff]
    exact le_total _ _
  have htrans : IsTrans (Text × Text) fun a b => pairLe a b = true := by
    refine ⟨fun a b c => ?_⟩
    simp only [pairLe_iff]
    exact le_trans
  exact List.pairwise_insertionSort _ _

/-- The items of a reply map are sorted by their keys. -/
theorem sortFields_textsJson {replies : List (Text × Text)} (h : sortedPairs replies = replies) :
    sortFields (textsJson replies) = textsJson replies := by
  refine List.Pairwise.insertionSort_eq (List.pairwise_map.mpr ?_)
  have hsorted := pairwise_sortedPairs replies
  rw [h] at hsorted
  refine hsorted.imp fun {a b} hab => ?_
  rw [String.toList_ofList, String.toList_ofList, Text.not_sortsBefore_iff]
  rw [pairLe_iff, pairKey, pairKey, Prod.Lex.le_iff] at hab
  exact hab.elim le_of_lt fun heq => le_of_eq heq.1

theorem sortedFields_textsJson (replies : List (Text × Text)) :
    sortedFields (textsJson replies) = textsJson replies := by
  unfold textsJson
  induction replies with
  | nil => rfl
  | cons item replies ih => rw [List.map_cons, sortedFields, ih, sorted]

theorem replyPairs_sorted {replies : List (Text × Text)} (h : sortedPairs replies = replies) :
    replyPairs (sorted (.obj (textsJson replies))) = some replies := by
  have hmap := mapM_map_some
    (f := fun item : Text × Text => (String.ofList item.1, Json.str (String.ofList item.2)))
    (g := fun item : String × Json => item.2.asStr?.map fun text => (item.1.toList, text.toList))
    (k := id) (fun item => by simp [Json.asStr?]) replies
  rw [List.map_id] at hmap
  rw [sorted, sortedFields_textsJson, sortFields_textsJson h]
  unfold replyPairs
  show (do
    let pairs ← (textsJson replies).mapM fun item : String × Json =>
      item.2.asStr?.map fun text => (item.1.toList, text.toList)
    return sortedPairs pairs) = some replies
  unfold textsJson
  rw [hmap]
  exact congrArg some h

theorem plain_textsJson {replies : List (Text × Text)} (h : (replies.map Prod.fst).Nodup) :
    Plain (.obj (textsJson replies)) := by
  have hkeys : (textsJson replies).map Prod.fst = (replies.map Prod.fst).map String.ofList := by
    simp [textsJson, Function.comp_def]
  refine ⟨?_, ?_⟩
  · rw [hkeys]
    exact h.map fun _ _ => String.ofList_injective
  · rw [plainFields_iff]
    intro field hfield
    obtain ⟨item, _, rfl⟩ := List.mem_map.mp hfield
    trivial

/-! ## Objects -/

/-- The keys of an object do not depend on the order. -/
theorem hasKeys_sorted {fields : List (String × Json)} {keys : List String}
    (h : fields.map Prod.fst = keys) : hasKeys keys (sorted (.obj fields)) = true := by
  have hmem : ∀ key, key ∈ (sortFields (sortedFields fields)).map Prod.fst ↔ key ∈ keys := by
    intro key
    rw [((sortFields_perm _).map Prod.fst).mem_iff, keys_sortedFields, h]
  rw [sorted, hasKeys, Json.asObj?, Option.any_some, sameSet, Bool.and_eq_true, List.all_eq_true,
    List.all_eq_true]
  constructor
  · exact fun key hkey => List.contains_iff_mem.mpr ((hmem key).mp hkey)
  · exact fun key hkey => List.contains_iff_mem.mpr ((hmem key).mpr hkey)

/-! ## How long a field is -/

def textsLength (l : List Text) : Nat :=
  (l.map fun t => (dumpsStr t).length + 1).sum + if l = [] then 2 else 1

theorem length_render_texts (floats : FloatText) (l : List Text) :
    (render floats (.arr (l.map jsonText))).length = textsLength l := by
  have hitem : itemLength floats ∘ jsonText = fun t => (dumpsStr t).length + 1 := by
    funext t
    simp [itemLength, jsonText, render]
  rw [length_render_arr, textsLength, List.map_map, hitem]
  simp only [List.map_eq_nil_iff]

def pairsLength (l : List (Text × Text)) : Nat :=
  (l.map fun item => (dumpsStr item.1).length + (dumpsStr item.2).length + 4).sum
    + if l = [] then 2 else 1

theorem length_render_pairs (floats : FloatText) (l : List (Text × Text)) :
    (render floats (.arr (l.map pairJson))).length = pairsLength l := by
  have hitem : itemLength floats ∘ pairJson
      = fun item => (dumpsStr item.1).length + (dumpsStr item.2).length + 4 := by
    funext item
    simp [itemLength, pairJson, jsonText, render, renderItems]
    omega
  rw [length_render_arr, pairsLength, List.map_map, hitem]
  simp only [List.map_eq_nil_iff]

def repliesLength (l : List (Text × Text)) : Nat :=
  (l.map fun item => (dumpsStr item.1).length + (dumpsStr item.2).length + 2).sum
    + if l = [] then 2 else 1

theorem length_render_replies (floats : FloatText) (l : List (Text × Text)) :
    (render floats (.obj (textsJson l))).length = repliesLength l := by
  have hitem : (fieldLength floats ∘ fun item : Text × Text =>
      (String.ofList item.1, Json.str (String.ofList item.2)))
      = fun item => (dumpsStr item.1).length + (dumpsStr item.2).length + 2 := by
    funext item
    simp [fieldLength, render]
  rw [length_render_obj, repliesLength, textsJson, List.map_map, hitem]
  simp only [List.map_eq_nil_iff]

/-- `null` has four letters. -/
def optionalLength (t : Option Text) : Nat := (t.map fun t => (dumpsStr t).length).getD 4

theorem length_render_optionalText (floats : FloatText) (t : Option Text) :
    (render floats (optionalText t)).length = optionalLength t := by
  cases t with
  | none => rfl
  | some t => simp [optionalText, render, optionalLength]

/-! ## Source receipts -/

theorem SourceLane.read_value (lane : SourceLane) :
    SourceLane.read (jsonText lane.value) = some lane := by
  cases lane with
  | implementation => decide
  | review => decide

theorem castTexts_texts (py : PyCasts) (l : List Text) :
    castTexts py (.arr (l.map jsonText)) = some l := by
  have htext : py.text ∘ jsonText = id := funext (text_jsonText py.toPyText)
  rw [castTexts, List.map_map, htext, List.map_id]

namespace SourceWorkspaceReceipt

variable {r : SourceWorkspaceReceipt}

/-- The fields of a receipt of the first schema. -/
theorem toDict_first (h : r.schemaVersion = 1) : r.toDict =
    .obj [("schema_version", .int r.schemaVersion), ("repository", jsonText r.repository),
      ("repository_identity", jsonText r.repositoryIdentity),
      ("ownership_key", jsonText r.ownershipKey), ("item_number", .int r.itemNumber),
      ("lane", jsonText r.lane.value), ("path", jsonText r.path.toText),
      ("revision", jsonText r.revision), ("generation", .int r.generation),
      ("detached", .bool r.detached), ("branch", optionalText r.branch),
      ("obligations", .arr (r.obligations.map jsonText))] := by
  have hne : ¬ r.schemaVersion = 2 := by omega
  rw [toDict, if_neg hne]
  rfl

theorem field_sorted_toDict (h : r.schemaVersion = 1) (key : String) :
    (sorted r.toDict).field key = sorted (r.toDict.field key) := by
  have hnodup : receiptKeys.Nodup := by decide
  rw [toDict_first h]
  refine field_sorted ?_ key
  exact hnodup

/-- What is written of a receipt of the first schema is read as the receipt. -/
theorem fromDict_sorted (py : PyCasts) (hschema : r.schemaVersion = 1)
    (hgeneration : 1 ≤ r.generation) (hclaim : r.dirtyClaim = none) :
    fromDict py (sorted r.toDict) = some r := by
  have hkeys : hasKeys receiptKeys (sorted r.toDict) = true := by
    rw [toDict_first hschema]
    exact hasKeys_sorted rfl
  have hversion : (sorted r.toDict).field "schema_version" = .int r.schemaVersion :=
    field_sorted_toDict hschema _
  have hitem : (sorted r.toDict).field "item_number" = .int r.itemNumber :=
    field_sorted_toDict hschema _
  have hlane : (sorted r.toDict).field "lane" = jsonText r.lane.value :=
    field_sorted_toDict hschema _
  have hgen : (sorted r.toDict).field "generation" = .int r.generation :=
    field_sorted_toDict hschema _
  have hobligations : (sorted r.toDict).field "obligations" = .arr (r.obligations.map jsonText) :=
    (field_sorted_toDict hschema _).trans (sorted_texts _)
  have hbranch : (sorted r.toDict).field "branch" = optionalText r.branch :=
    (field_sorted_toDict hschema _).trans (sorted_optionalText _)
  have hdetached : (sorted r.toDict).field "detached" = .bool r.detached :=
    field_sorted_toDict hschema _
  have htext : ∀ key t, r.toDict.field key = jsonText t →
      py.text ((sorted r.toDict).field key) = t := by
    intro key t h
    rw [field_sorted_toDict hschema, h]
    exact text_jsonText _ t
  have hfirst : (Json.int r.schemaVersion).eq (.int 2) = false := by
    rw [hschema]
    decide
  have hbranchBack : (if (optionalText r.branch).isNull then none
      else some (py.text (optionalText r.branch))) = r.branch := by
    cases hb : r.branch with
    | none => rfl
    | some t => exact congrArg some (text_jsonText _ t)
  unfold fromDict
  simp only [hversion, hitem, hlane, hgen, hobligations, hbranch, hdetached, hfirst, hkeys,
    py.int_int, SourceLane.read_value, castTexts_texts, hbranchBack, Json.truthy,
    htext "repository" r.repository rfl, htext "repository_identity" r.repositoryIdentity rfl,
    htext "ownership_key" r.ownershipKey rfl, htext "path" r.path.toText rfl,
    htext "revision" r.revision rfl, PosixPath.parse_toText, Bool.false_eq_true, if_false,
    List.append_nil]
  simp [hschema, hgeneration]
  obtain ⟨⟩ := r
  simp only at hschema hclaim
  subst hschema hclaim
  rfl

/-- How long the values of a receipt of the first schema are. -/
def valuesLength (r : SourceWorkspaceReceipt) : Nat :=
  ([r.repository, r.repositoryIdentity, r.ownershipKey, r.lane.value, r.path.toText, r.revision].map
      fun t => (dumpsStr t).length).sum
    + ([r.schemaVersion, r.itemNumber, r.generation].map fun n => (decimalInt n).length).sum
    + (if r.detached then 4 else 5) + optionalLength r.branch + textsLength r.obligations

theorem length_render_toDict (floats : FloatText) (h : r.schemaVersion = 1) :
    (render floats r.toDict).length
      = (receiptKeys.map fun key => (dumpsStr key.toList).length + 2).sum + r.valuesLength + 1 := by
  have hobligations := length_render_texts floats r.obligations
  have hbranch := length_render_optionalText floats r.branch
  have hdetached : (render floats (.bool r.detached)).length = if r.detached then 4 else 5 := by
    cases r.detached with
    | false => rfl
    | true => rfl
  rw [toDict_first h, length_render_obj]
  simp only [List.map_cons, List.map_nil, fieldLength, List.sum_cons, List.sum_nil, hobligations,
    hbranch, hdetached, reduceCtorEq, if_false, valuesLength, receiptKeys]
  simp only [render, jsonText, String.toList_ofList]
  omega

end SourceWorkspaceReceipt

end Hephaestus.Automation.Remediation
