import Calcsheet.Gzip.Member
import Calcsheet.Proofs.Gzip.Locality

/-!
# What a gzip member looks like

The header of a member is ten bytes and the fields that its flags announce. Deflated data follows,
then a check and the length of the data. `HoldsMember` says so of bytes, and decompressing succeeds
on such bytes and on no others (`decompress_eq_ok_iff`). Whatever stands behind the member is not
looked at.
-/

namespace Calcsheet.Gzip

/-! ## Fields -/

/-- A field that is there if its flag is set. -/
def FieldIf (flags flag : UInt8) (IsField : List UInt8 → Prop) (field : List UInt8) : Prop :=
  if flags &&& flag = 0 then field = [] else IsField field

/-- An extra field: its length in two bytes, then so many bytes. -/
def IsExtra (field : List UInt8) : Prop :=
  ∃ size content : List UInt8,
    field = size ++ content ∧ size.length = 2 ∧ littleEndian size = content.length

/-- A text of at most so many bytes that a zero byte ends. -/
def IsZeroEnded (limit : Nat) (field : List UInt8) : Prop :=
  ∃ text : List UInt8, field = text ++ [0] ∧ 0 ∉ text ∧ text.length ≤ limit

/-- The lower half of the check of what comes before. -/
def IsCheckOf (before field : List UInt8) : Prop :=
  field.length = 2 ∧ littleEndian field = (crc32 before).toNat % 65536

section Fields

variable {bytes taken rest : List UInt8}

theorem takeBytes_eq_ok_iff {n : Nat} :
    takeBytes n bytes = .ok (taken, rest) ↔ taken.length = n ∧ bytes = taken ++ rest := by
  unfold takeBytes
  constructor
  · intro h
    split at h
    · cases h
    · next enough =>
      obtain ⟨rfl, rfl⟩ := Prod.mk.inj (Except.ok.inj h)
      exact ⟨List.length_take_of_le (Nat.not_lt.1 enough), (List.take_append_drop ..).symm⟩
  · rintro ⟨rfl, rfl⟩
    simp

theorem skipPastZero_eq_ok_iff {room : Nat} :
    skipPastZero room bytes = .ok rest ↔
      ∃ field, bytes = field ++ rest ∧ IsZeroEnded room field := by
  induction bytes generalizing room with
  | nil => simp [skipPastZero, IsZeroEnded]
  | cons b bytes ih =>
    rw [skipPastZero]
    constructor
    · intro h
      split at h
      · next zero =>
        obtain rfl := Except.ok.inj h
        exact ⟨[b], rfl, [], by rw [zero]; rfl, List.not_mem_nil, Nat.zero_le room⟩
      · next notZero =>
        split at h
        · cases h
        · obtain ⟨_, rfl, text, rfl, noZero, short⟩ := ih.1 h
          refine ⟨b :: (text ++ [0]), rfl, b :: text, rfl, ?_, ?_⟩
          · simp [noZero, Ne.symm notZero]
          · rw [List.length_cons]
            omega
    · rintro ⟨_, eq, text, rfl, noZero, short⟩
      cases text with
      | nil =>
        obtain ⟨rfl, rfl⟩ := List.cons.inj eq
        rfl
      | cons c text =>
        obtain ⟨rfl, rfl⟩ := List.cons.inj eq
        rw [List.mem_cons, not_or] at noZero
        rw [List.length_cons] at short
        rw [if_neg (Ne.symm noZero.1), if_neg (by omega)]
        exact ih.2 ⟨text ++ [0], rfl, text, rfl, noZero.2, by omega⟩

theorem skipExtra_eq_ok_iff :
    skipExtra bytes = .ok rest ↔ ∃ field, bytes = field ++ rest ∧ IsExtra field := by
  unfold skipExtra
  constructor
  · intro h
    obtain ⟨⟨size, afterSize⟩, hsize, h⟩ := bind_eq_ok_iff.1 h
    obtain ⟨⟨content, afterContent⟩, hcontent, h⟩ := bind_eq_ok_iff.1 h
    obtain rfl := Except.ok.inj h
    obtain ⟨two, rfl⟩ := takeBytes_eq_ok_iff.1 hsize
    obtain ⟨length, rfl⟩ := takeBytes_eq_ok_iff.1 hcontent
    exact ⟨size ++ content, (List.append_assoc ..).symm, size, content, rfl, two, length.symm⟩
  · rintro ⟨_, rfl, size, content, rfl, two, length⟩
    refine bind_eq_ok_iff.2
      ⟨(size, content ++ rest), ?_, bind_eq_ok_iff.2 ⟨(content, rest), ?_, rfl⟩⟩
    · exact takeBytes_eq_ok_iff.2 ⟨two, List.append_assoc ..⟩
    · exact takeBytes_eq_ok_iff.2 ⟨length.symm, rfl⟩

theorem skipHeaderCheck_eq_ok_iff {before : List UInt8} :
    skipHeaderCheck (before ++ bytes) bytes = .ok rest ↔
      ∃ field, bytes = field ++ rest ∧ IsCheckOf before field := by
  have covered : (before ++ bytes).take ((before ++ bytes).length - bytes.length) = before := by
    rw [List.length_append, Nat.add_sub_cancel, List.take_left]
  unfold skipHeaderCheck
  rw [covered]
  constructor
  · intro h
    obtain ⟨⟨check, afterCheck⟩, hcheck, h⟩ := bind_eq_ok_iff.1 h
    dsimp only at h
    split at h
    · next agrees =>
      obtain rfl := Except.ok.inj h
      obtain ⟨two, rfl⟩ := takeBytes_eq_ok_iff.1 hcheck
      exact ⟨check, rfl, two, agrees⟩
    · cases h
  · rintro ⟨check, rfl, two, agrees⟩
    refine bind_eq_ok_iff.2 ⟨(check, rest), takeBytes_eq_ok_iff.2 ⟨two, rfl⟩, ?_⟩
    exact if_pos agrees

theorem whenSet_eq_ok_iff {flags flag : UInt8} {skip : List UInt8 → Except Fault (List UInt8)}
    {IsField : List UInt8 → Prop}
    (h : skip bytes = .ok rest ↔ ∃ field, bytes = field ++ rest ∧ IsField field) :
    whenSet flags flag skip bytes = .ok rest ↔
      ∃ field, bytes = field ++ rest ∧ FieldIf flags flag IsField field := by
  unfold whenSet FieldIf
  split
  · simp
  · exact h

end Fields

/-! ## Headers -/

/-- The header of a member: two bytes that tell it from other data, the method, the flags, six more
bytes, and the fields that are announced. -/
inductive IsHeader : List UInt8 → Prop
  | intro {flags : UInt8} {about extra name comment check : List UInt8}
    (known : flags &&& 0xE0 = 0) (six : about.length = 6)
    (isExtra : FieldIf flags 4 IsExtra extra)
    (isName : FieldIf flags 8 (IsZeroEnded fieldLimit) name)
    (isComment : FieldIf flags 16 (IsZeroEnded fieldLimit) comment)
    (isCheck : FieldIf flags 2
      (IsCheckOf (0x1F :: 0x8B :: 8 :: flags :: about ++ extra ++ name ++ comment)) check) :
    IsHeader (0x1F :: 0x8B :: 8 :: flags :: about ++ extra ++ name ++ comment ++ check)

theorem headerFlags?_eq_some_iff {fixed : List UInt8} {flags : UInt8} :
    headerFlags? fixed = some flags ↔
      ∃ about, fixed = 0x1F :: 0x8B :: 8 :: flags :: about ∧ flags &&& 0xE0 = 0 := by
  constructor
  · intro h
    unfold headerFlags? at h
    split at h
    · next about =>
      split at h
      · next is =>
        obtain ⟨rfl, rfl, rfl, known⟩ := is
        obtain rfl := Option.some.inj h
        exact ⟨about, rfl, known⟩
      · cases h
    · cases h
  · rintro ⟨about, rfl, known⟩
    exact if_pos ⟨rfl, rfl, rfl, known⟩

theorem skipHeader_eq_ok_iff {bytes rest : List UInt8} :
    skipHeader bytes = .ok rest ↔ ∃ header, bytes = header ++ rest ∧ IsHeader header := by
  unfold skipHeader
  constructor
  · intro h
    obtain ⟨⟨fixed, rest₁⟩, hfixed, h⟩ := bind_eq_ok_iff.1 h
    obtain ⟨ten, rfl⟩ := takeBytes_eq_ok_iff.1 hfixed
    dsimp only at h
    split at h
    · cases h
    next flags hflags =>
    obtain ⟨about, rfl, known⟩ := headerFlags?_eq_some_iff.1 hflags
    obtain ⟨rest₂, hextra, h⟩ := bind_eq_ok_iff.1 h
    obtain ⟨extra, rfl, isExtra⟩ := (whenSet_eq_ok_iff skipExtra_eq_ok_iff).1 hextra
    obtain ⟨rest₃, hname, h⟩ := bind_eq_ok_iff.1 h
    obtain ⟨name, rfl, isName⟩ := (whenSet_eq_ok_iff skipPastZero_eq_ok_iff).1 hname
    obtain ⟨rest₄, hcomment, h⟩ := bind_eq_ok_iff.1 h
    obtain ⟨comment, rfl, isComment⟩ := (whenSet_eq_ok_iff skipPastZero_eq_ok_iff).1 hcomment
    rw [← List.append_assoc, ← List.append_assoc, ← List.append_assoc] at h ⊢
    obtain ⟨check, rfl, isCheck⟩ := (whenSet_eq_ok_iff skipHeaderCheck_eq_ok_iff).1 h
    refine ⟨_, (List.append_assoc ..).symm, ?_⟩
    exact .intro known (by simpa using ten) isExtra isName isComment isCheck
  · rintro ⟨_, rfl, isHeader⟩
    obtain @⟨flags, about, extra, name, comment, check, known, six, isExtra, isName, isComment,
      isCheck⟩ := isHeader
    let fixed := 0x1F :: 0x8B :: 8 :: flags :: about
    refine bind_eq_ok_iff.2 ⟨(fixed, extra ++ (name ++ (comment ++ (check ++ rest)))), ?_, ?_⟩
    · exact takeBytes_eq_ok_iff.2 ⟨by simp [fixed, six], by simp [fixed]⟩
    have hflags : headerFlags? fixed = some flags := headerFlags?_eq_some_iff.2 ⟨about, rfl, known⟩
    dsimp only
    rw [hflags]
    refine bind_eq_ok_iff.2 ⟨_, (whenSet_eq_ok_iff skipExtra_eq_ok_iff).2 ⟨_, rfl, isExtra⟩, ?_⟩
    refine bind_eq_ok_iff.2 ⟨_, (whenSet_eq_ok_iff skipPastZero_eq_ok_iff).2 ⟨_, rfl, isName⟩, ?_⟩
    refine bind_eq_ok_iff.2
      ⟨_, (whenSet_eq_ok_iff skipPastZero_eq_ok_iff).2 ⟨_, rfl, isComment⟩, ?_⟩
    rw [List.append_assoc _ check rest]
    exact (whenSet_eq_ok_iff skipHeaderCheck_eq_ok_iff).2 ⟨check, rfl, isCheck⟩

/-! ## Members -/

/-- The bytes begin with a member that holds the data. -/
inductive HoldsMember : List UInt8 → List UInt8 → Prop
  | intro {header body check length rest data : List UInt8} (isHeader : IsHeader header)
    (isBody : inflate body = .ok (data, []))
    (four : check.length = 4) (isCheck : littleEndian check = (crc32 data).toNat)
    (four' : length.length = 4) (isLength : littleEndian length = data.length % 4294967296) :
    HoldsMember (header ++ body ++ check ++ length ++ rest) data

theorem decompress_eq_ok_iff {bytes data : List UInt8} :
    decompress bytes = .ok data ↔ HoldsMember bytes data := by
  unfold decompress
  constructor
  · intro h
    obtain ⟨deflated, hheader, hrest⟩ := bind_eq_ok_iff.1 h
    obtain ⟨header, rfl, isHeader⟩ := skipHeader_eq_ok_iff.1 hheader
    split at hrest
    · cases hrest
    next data' rest hinflate =>
    obtain ⟨body, rfl, isBody⟩ := inflate_eq_ok_iff.1 hinflate
    obtain ⟨⟨trailer, rest'⟩, htrailer, hdata⟩ := bind_eq_ok_iff.1 hrest
    obtain ⟨eight, rfl⟩ := takeBytes_eq_ok_iff.1 htrailer
    dsimp only at hdata
    split at hdata
    · next agree =>
      obtain rfl := Except.ok.inj hdata
      have parts : header ++ (body ++ (trailer ++ rest')) =
          header ++ body ++ trailer.take 4 ++ trailer.drop 4 ++ rest' := by
        rw [List.append_assoc _ (trailer.take 4), List.take_append_drop]
        simp only [List.append_assoc]
      rw [parts]
      exact .intro isHeader isBody (by simp [eight]) agree.1 (by simp [eight]) agree.2
    · cases hdata
  · intro h
    obtain @⟨header, body, check, length, rest, _, isHeader, isBody, four, isCheck, four',
      isLength⟩ := h
    have hinflate : inflate (body ++ (check ++ length ++ rest)) =
        .ok (data, check ++ length ++ rest) :=
      inflate_eq_ok_iff.2 ⟨body, rfl, isBody⟩
    refine bind_eq_ok_iff.2 ⟨body ++ (check ++ length ++ rest), ?_, ?_⟩
    · exact skipHeader_eq_ok_iff.2 ⟨header, by simp, isHeader⟩
    rw [hinflate]
    refine bind_eq_ok_iff.2 ⟨(check ++ length, rest), ?_, ?_⟩
    · exact takeBytes_eq_ok_iff.2 ⟨by simp [four, four'], rfl⟩
    dsimp only
    rw [List.take_left' four, List.drop_left' four, if_pos ⟨isCheck, isLength⟩]

end Calcsheet.Gzip
