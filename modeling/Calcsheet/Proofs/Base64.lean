import Calcsheet.Base64
import Calcsheet.Proofs.Except

/-!
# Base64 text

`encode` writes bytes as base64 text. Decoding succeeds on what it writes and on nothing else, and
gives back the bytes (`decode_eq_ok_iff`). So each row of bytes has one text: padding cannot be left
out, and the bits that a short last group does not use cannot be set.
-/

namespace Calcsheet.Base64

/-! ## Encoding -/

/-- The symbols in the order of their values. -/
def alphabet : List Char :=
  "ABCDEFGHIJKLMNOPQRSTUVWXYZabcdefghijklmnopqrstuvwxyz0123456789+/".toList

/-- The symbol for six bits. -/
def symbolFor (v : Nat) : Char :=
  alphabet.getD v '='

/-- The text that stands for bytes: four symbols for three bytes, and padding where fewer bytes are
left. -/
def encode : List UInt8 → List Char
  | [] => []
  | [a] => [symbolFor (a.toNat / 4), symbolFor (a.toNat % 4 * 16), '=', '=']
  | [a, b] =>
    [symbolFor (a.toNat / 4), symbolFor (a.toNat % 4 * 16 + b.toNat / 16),
      symbolFor (b.toNat % 16 * 4), '=']
  | a :: b :: c :: rest =>
    symbolFor (a.toNat / 4) :: symbolFor (a.toNat % 4 * 16 + b.toNat / 16) ::
      symbolFor (b.toNat % 16 * 4 + c.toNat / 64) :: symbolFor (c.toNat % 64) :: encode rest

/-- The bytes of a text. -/
def bytesOf (cs : List Char) : List UInt8 :=
  cs.flatMap String.utf8EncodeChar

/-- The byte of the symbol for six bits. -/
def symbolByte (v : Nat) : UInt8 :=
  UInt8.ofNat (symbolFor v).toNat

theorem bytesOf_symbol {v : Nat} (h : v < 64) (cs : List Char) :
    bytesOf (symbolFor v :: cs) = symbolByte v :: bytesOf cs := by
  have single : ∀ v : Fin 64, String.utf8EncodeChar (symbolFor v) = [symbolByte v] := by
    decide +kernel
  rw [bytesOf, List.flatMap_cons, single ⟨v, h⟩]
  rfl

/-! ## Symbols -/

theorem symbolValue?_symbolByte {v : Nat} (h : v < 64) : symbolValue? (symbolByte v) = some v := by
  have all : ∀ v : Fin 64, symbolValue? (symbolByte v) = some v.val := by
    decide +kernel
  exact all ⟨v, h⟩

theorem symbolValue?_eq_some {b : UInt8} {v : Nat} (h : symbolValue? b = some v) :
    v < 64 ∧ b = symbolByte v := by
  have all : ∀ n : Fin 256, ∀ v ∈ symbolValue? (UInt8.ofNat n),
      v < 64 ∧ UInt8.ofNat n = symbolByte v := by
    decide +kernel
  have := all ⟨b.toNat, b.toNat_lt⟩ v
  rw [UInt8.ofNat_toNat] at this
  exact this h

theorem symbolByte_ne_padding {v : Nat} (h : v < 64) : symbolByte v ≠ padding := by
  intro same
  have := symbolValue?_symbolByte h
  rw [same] at this
  cases this

theorem symbol_eq_ok_iff {offset : Nat} {b : UInt8} {v : Nat} :
    symbol offset b = .ok v ↔ v < 64 ∧ b = symbolByte v := by
  unfold symbol
  constructor
  · intro h
    cases hb : symbolValue? b with
    | none => simp [hb] at h
    | some w =>
      obtain rfl : w = v := by simpa [hb] using h
      exact symbolValue?_eq_some hb
  · rintro ⟨lt, rfl⟩
    simp [symbolValue?_symbolByte lt]

/-! ## Groups -/

/-- What stands for three bytes are values of six bits. -/
theorem sextets_lt (a b c : UInt8) :
    a.toNat / 4 < 64 ∧ a.toNat % 4 * 16 + b.toNat / 16 < 64 ∧
      b.toNat % 16 * 4 + c.toNat / 64 < 64 ∧ c.toNat % 64 < 64 := by
  have := a.toNat_lt
  have := b.toNat_lt
  have := c.toNat_lt
  omega

/-- Three bytes are four symbols. -/
theorem groupBytes_eq (a b c : UInt8) :
    groupBytes (a.toNat / 4) (a.toNat % 4 * 16 + b.toNat / 16) (b.toNat % 16 * 4 + c.toNat / 64)
      (c.toNat % 64) = [a, b, c] := by
  have ha := a.toNat_lt
  have hb := b.toNat_lt
  have hc := c.toNat_lt
  simp only [groupBytes, List.cons.injEq, and_true, ← UInt8.toNat_inj, UInt8.toNat_ofNat']
  omega

/-- Four symbols are three bytes. -/
theorem encode_groupBytes {a b c d : Nat} (ha : a < 64) (hb : b < 64) (hc : c < 64) (hd : d < 64)
    (rest : List UInt8) :
    encode (groupBytes a b c d ++ rest) =
      symbolFor a :: symbolFor b :: symbolFor c :: symbolFor d :: encode rest := by
  have first : (a * 4 + b / 16) % 256 / 4 = a := by omega
  have second : (a * 4 + b / 16) % 256 % 4 * 16 + (b % 16 * 16 + c / 4) % 256 / 16 = b := by omega
  have third : (b % 16 * 16 + c / 4) % 256 % 16 * 4 + (c % 4 * 64 + d) % 256 / 64 = c := by omega
  have fourth : (c % 4 * 64 + d) % 256 % 64 = d := by omega
  simp only [groupBytes, List.cons_append, List.nil_append, encode, UInt8.toNat_ofNat',
    Nat.reducePow, first, second, third, fourth]

theorem encode_one {a b : Nat} (ha : a < 64) (hb : b < 64) (zero : b % 16 = 0) :
    encode ((groupBytes a b 0 0).take 1) = [symbolFor a, symbolFor b, '=', '='] := by
  have first : (a * 4 + b / 16) % 256 / 4 = a := by omega
  have second : (a * 4 + b / 16) % 256 % 4 * 16 = b := by omega
  simp only [groupBytes, List.take_succ_cons, List.take_zero, encode, UInt8.toNat_ofNat',
    Nat.reducePow, first, second]

theorem encode_two {a b c : Nat} (ha : a < 64) (hb : b < 64) (hc : c < 64) (zero : c % 4 = 0) :
    encode ((groupBytes a b c 0).take 2) = [symbolFor a, symbolFor b, symbolFor c, '='] := by
  have first : (a * 4 + b / 16) % 256 / 4 = a := by omega
  have second : (a * 4 + b / 16) % 256 % 4 * 16 + (b % 16 * 16 + c / 4) % 256 / 16 = b := by omega
  have third : (b % 16 * 16 + c / 4) % 256 % 16 * 4 = c := by omega
  simp only [groupBytes, List.take_succ_cons, List.take_zero, encode, UInt8.toNat_ofNat',
    Nat.reducePow, first, second, third]

/-! ## The last group -/

section Last

variable {start index : Nat} {group data : List UInt8}

theorem lastSymbols_eq_ok {symbols : List (UInt8 × Nat)}
    (h : lastSymbols start index group = .ok symbols) :
    (∀ s ∈ symbols, s.2 < 64 ∧ s.1 = symbolByte s.2) ∧
      ∃ pads, group = symbols.map Prod.fst ++ List.replicate pads padding := by
  induction group generalizing index symbols with
  | nil =>
    obtain rfl : [] = symbols := by simpa [lastSymbols] using h
    exact ⟨by simp, 0, rfl⟩
  | cons b rest ih =>
    rw [lastSymbols] at h
    split at h
    · next pad =>
      split at h
      · cases h
      · split at h
        · next all =>
          obtain rfl : [] = symbols := by simpa using h
          have pads : rest = List.replicate rest.length padding :=
            List.eq_replicate_of_mem (by simpa using all)
          refine ⟨by simp, rest.length + 1, ?_⟩
          rw [List.map_nil, List.nil_append, List.replicate_succ, ← pads, pad]
        · cases h
    · obtain ⟨v, hv, h⟩ := bind_eq_ok_iff.1 h
      obtain ⟨others, hothers, h⟩ := bind_eq_ok_iff.1 h
      obtain rfl := Except.ok.inj h
      obtain ⟨all, pads, hrest⟩ := ih hothers
      refine ⟨List.forall_mem_cons.2 ⟨symbol_eq_ok_iff.1 hv, all⟩, pads, ?_⟩
      rw [List.map_cons, List.cons_append, hrest]

/-- What the last group stands for is written as that group. -/
theorem eq_of_lastBytes (short : group.length ≤ 4) (h : lastBytes start group = .ok data) :
    group = bytesOf (encode data) := by
  obtain ⟨symbols, hsymbols, value⟩ := bind_eq_ok_iff.1 h
  obtain ⟨all, pads, rfl⟩ := lastSymbols_eq_ok hsymbols
  rw [List.length_append, List.length_map, List.length_replicate] at short value
  rcases symbols with _ | ⟨⟨x, a⟩, _ | ⟨⟨y, b⟩, _ | ⟨⟨z, c⟩, _ | ⟨⟨w, d⟩, more⟩⟩⟩⟩
  · cases value
  · cases value
  · simp only [List.forall_mem_cons, List.length_cons, List.length_nil] at all value
    obtain ⟨⟨ha, rfl⟩, ⟨hb, rfl⟩, -⟩ := all
    split at value
    · cases value
    · next full =>
      obtain rfl : pads = 2 := by omega
      split at value
      · cases value
      · next zero =>
        obtain rfl := Except.ok.inj value
        rw [encode_one ha hb (by simpa using zero), bytesOf_symbol ha, bytesOf_symbol hb]
        rfl
  · simp only [List.forall_mem_cons, List.length_cons, List.length_nil] at all value
    obtain ⟨⟨ha, rfl⟩, ⟨hb, rfl⟩, ⟨hc, rfl⟩, -⟩ := all
    split at value
    · cases value
    · next full =>
      obtain rfl : pads = 1 := by omega
      split at value
      · cases value
      · next zero =>
        obtain rfl := Except.ok.inj value
        rw [encode_two ha hb hc (by simpa using zero), bytesOf_symbol ha, bytesOf_symbol hb,
          bytesOf_symbol hc]
        rfl
  · -- four symbols leave no room for padding
    simp only [List.length_cons] at short
    obtain rfl : more = [] := List.eq_nil_of_length_eq_zero (by omega)
    obtain rfl : pads = 0 := by simp at short; omega
    simp only [List.forall_mem_cons] at all
    obtain ⟨⟨ha, rfl⟩, ⟨hb, rfl⟩, ⟨hc, rfl⟩, ⟨hd, rfl⟩, -⟩ := all
    obtain rfl := Except.ok.inj value
    have written := encode_groupBytes ha hb hc hd []
    rw [List.append_nil] at written
    rw [written, bytesOf_symbol ha, bytesOf_symbol hb, bytesOf_symbol hc, bytesOf_symbol hd]
    rfl

theorem lastSymbols_written (start index : Nat) {vs : List Nat} (small : ∀ v ∈ vs, v < 64)
    {pads : Nat} (room : pads = 0 ∨ 2 ≤ index + vs.length) :
    lastSymbols start index (vs.map symbolByte ++ List.replicate pads padding) =
      .ok (vs.map fun v => (symbolByte v, v)) := by
  induction vs generalizing index with
  | nil =>
    cases pads with
    | zero => rfl
    | succ pads =>
      rw [List.length_nil] at room
      have two : ¬ index < 2 := by omega
      have all : (List.replicate pads padding).all (· = padding) := by simp
      rw [List.map_nil, List.nil_append, List.replicate_succ, lastSymbols, if_pos rfl, if_neg two,
        if_pos all]
      rfl
  | cons v vs ih =>
    obtain ⟨hv, hvs⟩ := List.forall_mem_cons.1 small
    have room : pads = 0 ∨ 2 ≤ index + 1 + vs.length := by
      rw [List.length_cons] at room
      omega
    rw [List.map_cons, List.cons_append, lastSymbols, if_neg (symbolByte_ne_padding hv),
      symbol_eq_ok_iff.2 ⟨hv, rfl⟩, ih (index + 1) hvs room]
    rfl

end Last

theorem bytesOf_written {vs : List Nat} (small : ∀ v ∈ vs, v < 64) (pads : Nat) :
    bytesOf (vs.map symbolFor ++ List.replicate pads '=') =
      vs.map symbolByte ++ List.replicate pads padding := by
  induction vs with
  | nil =>
    induction pads with
    | zero => rfl
    | succ pads ih => exact congrArg (padding :: ·) ih
  | cons v vs ih =>
    obtain ⟨hv, hvs⟩ := List.forall_mem_cons.1 small
    rw [List.map_cons, List.cons_append, bytesOf_symbol hv, ih hvs, List.map_cons, List.cons_append]

theorem sextets_lt_one (a : UInt8) : ∀ v ∈ [a.toNat / 4, a.toNat % 4 * 16], v < 64 := by
  simpa using ⟨(sextets_lt a 0 0).1, (sextets_lt a 0 0).2.1⟩

theorem sextets_lt_two (a b : UInt8) :
    ∀ v ∈ [a.toNat / 4, a.toNat % 4 * 16 + b.toNat / 16, b.toNat % 16 * 4], v < 64 := by
  obtain ⟨h₀, h₁, h₂, -⟩ := sextets_lt a b 0
  simpa using ⟨h₀, h₁, h₂⟩

theorem bytesOf_encode_one (a : UInt8) :
    bytesOf (encode [a]) =
      [a.toNat / 4, a.toNat % 4 * 16].map symbolByte ++ List.replicate 2 padding :=
  bytesOf_written (sextets_lt_one a) 2

theorem bytesOf_encode_two (a b : UInt8) :
    bytesOf (encode [a, b]) =
      [a.toNat / 4, a.toNat % 4 * 16 + b.toNat / 16, b.toNat % 16 * 4].map symbolByte ++
        List.replicate 1 padding :=
  bytesOf_written (sextets_lt_two a b) 1

theorem bytesOf_encode_cons (a b c : UInt8) (rest : List UInt8) :
    bytesOf (encode (a :: b :: c :: rest)) =
      symbolByte (a.toNat / 4) :: symbolByte (a.toNat % 4 * 16 + b.toNat / 16) ::
        symbolByte (b.toNat % 16 * 4 + c.toNat / 64) :: symbolByte (c.toNat % 64) ::
          bytesOf (encode rest) := by
  obtain ⟨h₀, h₁, h₂, h₃⟩ := sextets_lt a b c
  rw [encode, bytesOf_symbol h₀, bytesOf_symbol h₁, bytesOf_symbol h₂, bytesOf_symbol h₃]

/-- What `encode` writes for one to three bytes is read as a last group. -/
theorem lastBytes_encode (start : Nat) {data : List UInt8} (notEmpty : data ≠ [])
    (short : data.length ≤ 3) : lastBytes start (bytesOf (encode data)) = .ok data := by
  rcases data with _ | ⟨a, _ | ⟨b, _ | ⟨c, _ | ⟨d, more⟩⟩⟩⟩
  · exact absurd rfl notEmpty
  · have value := groupBytes_eq a 0 0
    simp only [UInt8.toNat_zero, Nat.zero_div, Nat.zero_mod, Nat.zero_mul, Nat.add_zero] at value
    rw [bytesOf_encode_one, lastBytes,
      lastSymbols_written start 0 (sextets_lt_one a) (.inr Nat.le.refl)]
    simp [bind, Except.bind, value]
  · have value := groupBytes_eq a b 0
    simp only [UInt8.toNat_zero, Nat.zero_div, Nat.zero_mod, Nat.add_zero] at value
    rw [bytesOf_encode_two, lastBytes,
      lastSymbols_written start 0 (sextets_lt_two a b) (.inr (Nat.le_succ 2))]
    simp [bind, Except.bind, value]
  · have small : ∀ v ∈ [a.toNat / 4, a.toNat % 4 * 16 + b.toNat / 16,
        b.toNat % 16 * 4 + c.toNat / 64, c.toNat % 64], v < 64 := by
      simpa using sextets_lt a b c
    have symbols := lastSymbols_written start 0 small (.inl rfl)
    rw [List.replicate_zero, List.append_nil] at symbols
    rw [bytesOf_encode_cons, encode, lastBytes, ← groupBytes_eq a b c]
    exact congrArg (· >>= _) symbols
  · simp only [List.length_cons] at short
    omega

/-! ## All groups -/

theorem eq_of_groups {start : Nat} {bytes data : List UInt8} (h : groups start bytes = .ok data) :
    bytes = bytesOf (encode data) := by
  fun_induction groups start bytes generalizing data with
  | case1 =>
    obtain rfl : [] = data := Except.ok.inj h
    rfl
  | case2 start b₀ b₁ b₂ b₃ b₄ rest ih =>
    obtain ⟨v₀, h₀, h⟩ := bind_eq_ok_iff.1 h
    obtain ⟨v₁, h₁, h⟩ := bind_eq_ok_iff.1 h
    obtain ⟨v₂, h₂, h⟩ := bind_eq_ok_iff.1 h
    obtain ⟨v₃, h₃, h⟩ := bind_eq_ok_iff.1 h
    obtain ⟨others, hothers, h⟩ := bind_eq_ok_iff.1 h
    obtain ⟨lt₀, eq₀⟩ := symbol_eq_ok_iff.1 h₀
    obtain ⟨lt₁, eq₁⟩ := symbol_eq_ok_iff.1 h₁
    obtain ⟨lt₂, eq₂⟩ := symbol_eq_ok_iff.1 h₂
    obtain ⟨lt₃, eq₃⟩ := symbol_eq_ok_iff.1 h₃
    rw [← Except.ok.inj h, encode_groupBytes lt₀ lt₁ lt₂ lt₃, bytesOf_symbol lt₀,
      bytesOf_symbol lt₁, bytesOf_symbol lt₂, bytesOf_symbol lt₃, ← ih hothers, eq₀, eq₁, eq₂, eq₃]
  | case3 start group notEmpty notLong =>
    refine eq_of_lastBytes ?_ h
    rcases group with _ | ⟨b₀, _ | ⟨b₁, _ | ⟨b₂, _ | ⟨b₃, _ | ⟨b₄, rest⟩⟩⟩⟩⟩
    case cons.cons.cons.cons.cons => exact absurd rfl (notLong b₀ b₁ b₂ b₃ b₄ rest)
    all_goals simp

theorem groups_of_short {start : Nat} {bytes : List UInt8} (notEmpty : bytes ≠ [])
    (short : bytes.length ≤ 4) : groups start bytes = lastBytes start bytes := by
  rcases bytes with _ | ⟨b₀, _ | ⟨b₁, _ | ⟨b₂, _ | ⟨b₃, _ | ⟨b₄, rest⟩⟩⟩⟩⟩
  case nil => exact absurd rfl notEmpty
  case cons.cons.cons.cons.cons =>
    simp only [List.length_cons] at short
    omega
  all_goals rfl

theorem groups_group {start v₀ v₁ v₂ v₃ : Nat} (h₀ : v₀ < 64) (h₁ : v₁ < 64) (h₂ : v₂ < 64)
    (h₃ : v₃ < 64) {bytes data : List UInt8} (notEmpty : bytes ≠ [])
    (h : groups (start + 4) bytes = .ok data) :
    groups start (symbolByte v₀ :: symbolByte v₁ :: symbolByte v₂ :: symbolByte v₃ :: bytes) =
      .ok (groupBytes v₀ v₁ v₂ v₃ ++ data) := by
  obtain ⟨b, rest, rfl⟩ := List.exists_cons_of_ne_nil notEmpty
  rw [groups, h, symbol_eq_ok_iff.2 ⟨h₀, rfl⟩, symbol_eq_ok_iff.2 ⟨h₁, rfl⟩,
    symbol_eq_ok_iff.2 ⟨h₂, rfl⟩, symbol_eq_ok_iff.2 ⟨h₃, rfl⟩]
  rfl

/-- The text has four symbols for each three bytes that are begun. -/
theorem length_bytesOf_encode (data : List UInt8) :
    (bytesOf (encode data)).length = (data.length + 2) / 3 * 4 := by
  induction data using encode.induct with
  | case1 => rfl
  | case2 a => simp [bytesOf_encode_one]
  | case3 a b => simp [bytesOf_encode_two]
  | case4 a b c rest ih =>
    rw [bytesOf_encode_cons]
    simp only [List.length_cons, ih]
    omega

theorem groups_encode (start : Nat) (data : List UInt8) :
    groups start (bytesOf (encode data)) = .ok data := by
  -- at most three bytes are one group, which is the last
  have short (start : Nat) {data : List UInt8} (notEmpty : data ≠ []) (le : data.length ≤ 3) :
      groups start (bytesOf (encode data)) = .ok data := by
    have length := length_bytesOf_encode data
    have pos := List.length_pos_iff.2 notEmpty
    rw [groups_of_short (List.ne_nil_of_length_pos (by omega)) (by omega),
      lastBytes_encode start notEmpty le]
  induction data using encode.induct generalizing start with
  | case1 => rfl
  | case2 a => exact short start (List.cons_ne_nil _ _) (by simp)
  | case3 a b => exact short start (List.cons_ne_nil _ _) (by simp)
  | case4 a b c rest ih =>
    by_cases empty : rest = []
    · exact short start (List.cons_ne_nil _ _) (by simp [empty])
    · obtain ⟨h₀, h₁, h₂, h₃⟩ := sextets_lt a b c
      have length := length_bytesOf_encode rest
      have pos := List.length_pos_iff.2 empty
      have more : bytesOf (encode rest) ≠ [] := List.ne_nil_of_length_pos (by omega)
      rw [bytesOf_encode_cons, groups_group h₀ h₁ h₂ h₃ more (ih (start + 4)), groupBytes_eq]
      rfl

/-- Decoding succeeds on what `encode` writes, and on nothing else. -/
theorem decode_eq_ok_iff {bytes data : List UInt8} :
    decode bytes = .ok data ↔ bytes = bytesOf (encode data) := by
  unfold decode
  constructor
  · intro h
    split at h
    · split at h
      · cases h
      · exact eq_of_groups h
    · next none =>
      obtain rfl : [] = data := Except.ok.inj h
      exact List.getLast?_eq_none_iff.1 none
  · rintro rfl
    have length := length_bytesOf_encode data
    split
    · rw [if_neg (by omega), groups_encode]
    · next none =>
      rw [List.getLast?_eq_none_iff.1 none, List.length_nil] at length
      have empty : data = [] := List.eq_nil_of_length_eq_zero (by omega)
      rw [empty]

end Calcsheet.Base64
