import Calcsheet.Attachment
import Calcsheet.Proofs.Base64
import Calcsheet.Proofs.Gzip.Member
import Calcsheet.Proofs.Kind
import Mathlib.Data.List.Forall2

/-!
# Decoding attachments

The text of an item, blanks aside, is base64 of the data, or of a gzip member that holds the data
(`Encodes`). The attachments of a worksheet are what its items encode, one for each in their order,
and if one item encodes nothing then there are none (`exists_collect_iff`).
-/

namespace Calcsheet

open Text

/-! ## Text and bytes -/

theorem Base64.toList_toUTF8 (cs : List Char) :
    (String.ofList cs).toUTF8.data.toList = bytesOf cs := by
  rw [String.toUTF8, String.toByteArray_ofList, List.utf8Encode, List.data_toByteArray]
  rfl

theorem Base64.bytesOf_inj {cs cs' : List Char} : bytesOf cs = bytesOf cs' ↔ cs = cs' := by
  refine ⟨fun h => String.ofList_injective (String.toByteArray_inj.1 ?_), congrArg bytesOf⟩
  rw [String.toByteArray_ofList, String.toByteArray_ofList]
  exact congrArg List.toByteArray h

namespace Attachment

/-- The text stands for the data: it is base64 of the data, or of a gzip member if the data is
compressed, with blanks anywhere in it. -/
inductive Encodes (text : String) : Bool → List UInt8 → Prop
  | plain {data : List UInt8}
    (isBase64 : text.toList.filter (fun c => !isBlank c) = Base64.encode data) :
    Encodes text false data
  | compressed {bytes data : List UInt8}
    (isBase64 : text.toList.filter (fun c => !isBlank c) = Base64.encode bytes)
    (isGzip : Gzip.HoldsMember bytes data) : Encodes text true data

/-- The text of the item stands for the data. It is compressed if the item has a content encoding,
whichever that is. -/
def ItemEncodes (item : Element) (data : List UInt8) : Prop :=
  Encodes item.text (item.attributes.get? "content-encoding").isSome data

theorem base64_decode_eq_ok_iff {text : String} {data : List UInt8} :
    Base64.decode (withoutBlanks text).toUTF8.data.toList = .ok data ↔
      text.toList.filter (fun c => !isBlank c) = Base64.encode data := by
  rw [Base64.decode_eq_ok_iff, withoutBlanks, Base64.toList_toUTF8, Base64.bytesOf_inj]

theorem decode_eq_ok_iff {itemId : String} {compressed : Bool} {text : String}
    {data : List UInt8} :
    decode itemId compressed text = .ok data ↔ Encodes text compressed data := by
  unfold decode
  constructor
  · intro h
    split at h
    · cases h
    next bytes hbytes =>
    have isBase64 := base64_decode_eq_ok_iff.1 hbytes
    cases compressed with
    | false =>
      obtain rfl := Except.ok.inj h
      exact .plain isBase64
    | true =>
      rw [if_pos rfl] at h
      split at h
      · next hgzip =>
        obtain rfl := Except.ok.inj h
        exact .compressed isBase64 (Gzip.decompress_eq_ok_iff.1 hgzip)
      · cases h
  · intro h
    cases h with
    | plain isBase64 =>
      rw [base64_decode_eq_ok_iff.2 isBase64]
      rfl
    | compressed isBase64 isGzip =>
      rw [base64_decode_eq_ok_iff.2 isBase64]
      dsimp only
      rw [if_pos rfl, Gzip.decompress_eq_ok_iff.2 isGzip]

theorem ofItem_eq_ok_iff {item : Element} {a : Attachment} :
    ofItem item = .ok a ↔
      item.attributes.get? "item-id" = some a.itemId ∧ ItemEncodes item a.data := by
  unfold ofItem
  constructor
  · intro h
    split at h
    · cases h
    next itemId hid =>
    obtain ⟨data, hdata, h⟩ := bind_eq_ok_iff.1 h
    obtain rfl := Except.ok.inj h
    exact ⟨hid, decode_eq_ok_iff.1 hdata⟩
  · rintro ⟨hid, encodes⟩
    rw [hid]
    exact bind_eq_ok_iff.2 ⟨a.data, decode_eq_ok_iff.2 encodes, rfl⟩

theorem ofItems_eq_ok_iff {items : List Element} {attachments : List Attachment} :
    ofItems items = .ok attachments ↔
      List.Forall₂ (fun item a => ofItem item = .ok a) items attachments := by
  induction items generalizing attachments with
  | nil =>
    rw [List.forall₂_nil_left_iff, ofItems, Except.ok.injEq, eq_comm]
  | cons item items ih =>
    rw [List.forall₂_cons_left_iff, ofItems]
    simp only [bind_eq_ok_iff, ih, Except.ok.injEq]
    constructor
    · rintro ⟨a, ha, others, hothers, rfl⟩
      exact ⟨a, others, ha, hothers, rfl⟩
    · rintro ⟨a, others, ha, hothers, rfl⟩
      exact ⟨a, ha, others, hothers, rfl⟩

theorem collect_eq {root content : Element} {before after : List Element}
    (children : root.children = before ++ content :: after)
    (isContent : content.name = .bound Vocabulary.worksheet.uri "binaryContent")
    (first : ∀ e ∈ before, e.name ≠ .bound Vocabulary.worksheet.uri "binaryContent") :
    collect root = ofItems content.children := by
  have isKind (e : Element) :
      e.kind = .binaryContent ↔ e.name = .bound Vocabulary.worksheet.uri "binaryContent" :=
    Kind.of_eq_iff (by decide) e.name
  have found : root.children.find? (fun e => e.kind = .binaryContent) = some content := by
    refine List.find?_eq_some_iff_append.2
      ⟨decide_eq_true ((isKind content).2 isContent), before, after, children, fun e he => ?_⟩
    simpa [isKind] using first e he
  rw [collect, found]

/-- Items with an id are decoded to whatever they encode. -/
theorem exists_ofItems_iff {items : List Element}
    (named : ∀ item ∈ items, (item.attributes.get? "item-id").isSome)
    (payloads : List (List UInt8)) :
    (∃ attachments, ofItems items = .ok attachments ∧ attachments.map data = payloads) ↔
      List.Forall₂ ItemEncodes items payloads := by
  simp only [ofItems_eq_ok_iff]
  constructor
  · rintro ⟨attachments, hitems, rfl⟩
    rw [List.forall₂_map_right_iff]
    exact hitems.imp fun item a ha => (ofItem_eq_ok_iff.1 ha).2
  · intro h
    induction h with
    | nil => exact ⟨[], .nil, rfl⟩
    | @cons item payload items payloads encodes _ ih =>
      obtain ⟨hsome, named⟩ := List.forall_mem_cons.1 named
      obtain ⟨itemId, hid⟩ := Option.isSome_iff_exists.1 hsome
      obtain ⟨attachments, hitems, rfl⟩ := ih named
      have hitem : ofItem item = .ok ⟨itemId, payload⟩ := ofItem_eq_ok_iff.2 ⟨hid, encodes⟩
      exact ⟨⟨itemId, payload⟩ :: attachments, .cons hitem hitems, rfl⟩

/-- The attachments of items that have an id are whatever the items encode, in their order. If one
of them encodes nothing, there is an error and no attachments. -/
theorem exists_collect_iff {root content : Element} {before after : List Element}
    (children : root.children = before ++ content :: after)
    (isContent : content.name =
      .bound "http://schemas.mathsoft.com/worksheet30" "binaryContent")
    (first : ∀ e ∈ before, e.name ≠
      .bound "http://schemas.mathsoft.com/worksheet30" "binaryContent")
    (named : ∀ item ∈ content.children, (item.attributes.get? "item-id").isSome) :
    (∀ payloads : List (List UInt8),
      (∃ attachments, collect root = .ok attachments ∧ attachments.map data = payloads) ↔
        List.Forall₂ ItemEncodes content.children payloads) ∧
    ((∃ error, collect root = .error error) ↔
      ¬ ∃ payloads : List (List UInt8), List.Forall₂ ItemEncodes content.children payloads) := by
  rw [collect_eq children isContent first]
  refine ⟨exists_ofItems_iff named, ?_⟩
  simp only [← exists_ofItems_iff named]
  cases ofItems content.children with
  | error error => simp
  | ok attachments => simp

/-- A section with two items, one as it is and in two lines, one compressed. -/
def pictureSection : Element :=
  .mk (.bound Vocabulary.worksheet.uri "binaryContent") .empty ""
    [.mk (.unbound "item") (.ofList [("item-id", "1")]) "aG\n k=" [],
     .mk (.unbound "item") (.ofList [("item-id", "2"), ("content-encoding", "gzip")])
      "H4sIAAAAAAACA8vIzECBAKu2C94QAAAA" []]

/-- A worksheet with that section and a second one. -/
def pictureSheet : Element :=
  .mk (.bound Vocabulary.worksheet.uri "worksheet") .empty ""
    [.mk (.bound Vocabulary.worksheet.uri "regions") .empty "" [], pictureSection,
     .mk (.bound Vocabulary.worksheet.uri "binaryContent") .empty ""
      [.mk (.unbound "item") .empty "" []]]

theorem exists_collect_pictureSheet :
    (∃ attachments, collect pictureSheet = .ok attachments ∧
      attachments.map data = ["hi".toUTF8.data.toList, "hihihihihihihihi".toUTF8.data.toList]) ∧
    List.Forall₂ ItemEncodes pictureSection.children
      ["hi".toUTF8.data.toList, "hihihihihihihihi".toUTF8.data.toList] ∧
    ¬ ∃ error, collect pictureSheet = .error error := by
  have children : pictureSheet.children =
      [.mk (.bound Vocabulary.worksheet.uri "regions") .empty "" []] ++ pictureSection ::
        [.mk (.bound Vocabulary.worksheet.uri "binaryContent") .empty ""
          [.mk (.unbound "item") .empty "" []]] := rfl
  have first : ∀ e ∈ [Element.mk (.bound Vocabulary.worksheet.uri "regions") .empty "" []],
      e.name ≠ .bound "http://schemas.mathsoft.com/worksheet30" "binaryContent" := by
    simp [Element.name, QName.bound]
  have named : ∀ item ∈ pictureSection.children, (item.attributes.get? "item-id").isSome := by
    decide
  obtain ⟨decoded, failed⟩ := exists_collect_iff children rfl first named
  have pictures : ∃ attachments, collect pictureSheet = .ok attachments ∧
      attachments.map data =
        ["hi".toUTF8.data.toList, "hihihihihihihihi".toUTF8.data.toList] :=
    ⟨_, toOption_eq_some_iff.1 (by decide +kernel : _ = some
      [⟨"1", "hi".toUTF8.data.toList⟩, ⟨"2", "hihihihihihihihi".toUTF8.data.toList⟩]), rfl⟩
  exact ⟨pictures, (decoded _).1 pictures, fun error => failed.1 error ⟨_, (decoded _).1 pictures⟩⟩

end Attachment

end Calcsheet
