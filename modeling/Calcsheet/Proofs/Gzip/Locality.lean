import Calcsheet.Gzip.Inflate
import Calcsheet.Proofs.Except

/-!
# Deflated data ends by itself

Each reader of bits takes some of them off the front, and what it makes of them does not depend on
what follows (`IsLocal`). This goes from reader to reader up to inflating: whatever stands behind
deflated bytes, they stand for the same data, and what stands behind them is left
(`inflate_eq_ok_iff`).
-/

namespace Calcsheet.Gzip

/-- The reader does not look at bits that it leaves. Only their number counts, as far as it tells
where bytes begin. -/
def IsLocal {α : Type} (read : BitReader α) : Prop :=
  ∀ ⦃bits a rest⦄, read bits = .ok (a, rest) →
    ∃ used, bits = used ++ rest ∧
      ∀ rest', rest'.length % 8 = rest.length % 8 → read (used ++ rest') = .ok (a, rest')

namespace IsLocal

variable {α β : Type}

theorem pure (a : α) : IsLocal fun bits => .ok (a, bits) := by
  rintro bits _ _ ⟨⟩
  exact ⟨[], rfl, fun _ _ => rfl⟩

theorem error (fault : InflateFault) : IsLocal (α := α) fun _ => .error fault := by
  rintro bits a rest ⟨⟩

theorem ite {p : Prop} [Decidable p] {read read' : BitReader α} (h : IsLocal read)
    (h' : IsLocal read') : IsLocal fun bits => if p then read bits else read' bits := by
  split
  · exact h
  · exact h'

/-- One reader after another, which may be any that the first can lead to. -/
theorem bind {read : BitReader α} {next : α × List Bool → Except InflateFault (β × List Bool)}
    (h : IsLocal read)
    (hnext : ∀ bits a rest, read bits = .ok (a, rest) → IsLocal fun rest => next (a, rest)) :
    IsLocal fun bits => read bits >>= next := by
  intro bits b rest hread
  obtain ⟨⟨a, between⟩, ha, hb⟩ := bind_eq_ok_iff.1 hread
  have hlocal := hnext bits a between ha
  obtain ⟨used, rfl, again⟩ := h ha
  obtain ⟨used', rfl, again'⟩ := hlocal hb
  refine ⟨used ++ used', (List.append_assoc ..).symm, fun rest' same => ?_⟩
  have same' : (used' ++ rest').length % 8 = (used' ++ rest).length % 8 := by
    rw [List.length_append, List.length_append]
    omega
  rw [List.append_assoc]
  exact bind_eq_ok_iff.2 ⟨(a, used' ++ rest'), again _ same', again' rest' same⟩

/-- A reader that depends on a value which may be a fault. -/
theorem bindValue {x : Except InflateFault α} {next : α → BitReader β}
    (hnext : ∀ a, IsLocal (next a)) : IsLocal fun bits => x >>= fun a => next a bits := by
  cases x with
  | error fault => exact error fault
  | ok a => exact hnext a

theorem length_le {read : BitReader α} (h : IsLocal read) {bits rest : List Bool} {a : α}
    (hread : read bits = .ok (a, rest)) : rest.length ≤ bits.length := by
  obtain ⟨used, rfl, -⟩ := h hread
  rw [List.length_append]
  exact Nat.le_add_left ..

section Loop

variable {σ : Type} (run : Nat → σ → BitReader α) {step : σ → BitReader (σ ⊕ α)}
  (zero : ∀ s bits, run 0 s bits = .error .incomplete)
  (succ : ∀ fuel s bits, run (fuel + 1) s bits = step s bits >>= fun (result, bits) =>
    result.elim (fun s => run fuel s bits) fun a => .ok (a, bits))
  (each : ∀ s, IsLocal (step s))
  (takes : ∀ s bits result rest, step s bits = .ok (result, rest) → rest.length < bits.length)

include zero succ each takes

/-- What a loop does is done with other bits behind those that it takes, and the number of those is
fuel enough. -/
theorem exists_used_of_run {fuel : Nat} {s : σ} {bits rest : List Bool} {a : α}
    (h : run fuel s bits = .ok (a, rest)) :
    ∃ used, bits = used ++ rest ∧ ∀ rest' fuel', rest'.length % 8 = rest.length % 8 →
      used.length ≤ fuel' → run fuel' s (used ++ rest') = .ok (a, rest') := by
  induction fuel generalizing s bits with
  | zero =>
    rw [zero] at h
    cases h
  | succ fuel ih =>
    rw [succ] at h
    obtain ⟨⟨result, between⟩, hstep, h⟩ := bind_eq_ok_iff.1 h
    have less := takes s bits result between hstep
    obtain ⟨used, rfl, again⟩ := each s hstep
    rw [List.length_append] at less
    cases result with
    | inr a =>
      obtain ⟨rfl, rfl⟩ := Prod.mk.inj (Except.ok.inj h)
      refine ⟨used, rfl, fun rest' fuel' same le => ?_⟩
      obtain ⟨fuel', rfl⟩ : ∃ n, fuel' = n + 1 := ⟨fuel' - 1, by omega⟩
      rw [succ, again rest' same]
      rfl
    | inl s' =>
      obtain ⟨used', rfl, again'⟩ := ih h
      refine ⟨used ++ used', (List.append_assoc ..).symm, fun rest' fuel' same le => ?_⟩
      have same' : (used' ++ rest').length % 8 = (used' ++ rest).length % 8 := by
        rw [List.length_append, List.length_append]
        omega
      rw [List.length_append] at le
      obtain ⟨fuel', rfl⟩ : ∃ n, fuel' = n + 1 := ⟨fuel' - 1, by omega⟩
      rw [List.append_assoc, succ, again _ same']
      exact again' rest' fuel' same (by omega)

/-- A loop whose steps each take at least one bit, with the number of bits as fuel. -/
theorem loop (s : σ) : IsLocal fun bits => run (bits.length + 1) s bits := by
  intro bits a rest h
  obtain ⟨used, rfl, again⟩ := exists_used_of_run run zero succ each takes h
  refine ⟨used, rfl, fun rest' same => again rest' _ same ?_⟩
  rw [List.length_append]
  omega

end Loop

end IsLocal

/-! ## Bits and numbers -/

theorem takeBits_eq_ok_iff {n : Nat} {bits taken rest : List Bool} :
    takeBits n bits = .ok (taken, rest) ↔ taken.length = n ∧ bits = taken ++ rest := by
  induction n generalizing bits taken with
  | zero => cases taken <;> simp [takeBits, eq_comm]
  | succ n ih =>
    cases bits with
    | nil =>
      refine ⟨nofun, fun ⟨length, empty⟩ => ?_⟩
      rw [(List.append_eq_nil_iff.1 empty.symm).1] at length
      cases length
    | cons b bits =>
      rw [takeBits]
      constructor
      · intro h
        split at h
        · next htake =>
          obtain ⟨rfl, rfl⟩ := Prod.mk.inj (Except.ok.inj h)
          obtain ⟨length, rfl⟩ := ih.1 htake
          exact ⟨congrArg (· + 1) length, rfl⟩
        · cases h
      · rintro ⟨length, eq⟩
        cases taken with
        | nil => cases length
        | cons b' taken =>
          rw [List.cons_append] at eq
          obtain ⟨rfl, rfl⟩ := List.cons.inj eq
          rw [ih.2 ⟨Nat.succ.inj length, rfl⟩]

theorem takeNat_eq_ok_iff {n v : Nat} {bits rest : List Bool} :
    takeNat n bits = .ok (v, rest) ↔
      ∃ taken : List Bool, taken.length = n ∧ natOfBits taken = v ∧ bits = taken ++ rest := by
  rw [takeNat]
  constructor
  · intro h
    split at h
    · next taken _ htake =>
      obtain ⟨rfl, rfl⟩ := Prod.mk.inj (Except.ok.inj h)
      obtain ⟨length, rfl⟩ := takeBits_eq_ok_iff.1 htake
      exact ⟨taken, length, rfl, rfl⟩
    · cases h
  · rintro ⟨taken, length, rfl, rfl⟩
    rw [takeBits_eq_ok_iff.2 ⟨length, rfl⟩]

theorem isLocal_takeBits (n : Nat) : IsLocal (takeBits n) := by
  intro bits taken rest h
  obtain ⟨length, rfl⟩ := takeBits_eq_ok_iff.1 h
  exact ⟨taken, rfl, fun _ _ => takeBits_eq_ok_iff.2 ⟨length, rfl⟩⟩

theorem isLocal_takeNat (n : Nat) : IsLocal (takeNat n) := by
  intro bits v rest h
  obtain ⟨taken, length, value, rfl⟩ := takeNat_eq_ok_iff.1 h
  exact ⟨taken, rfl, fun _ _ => takeNat_eq_ok_iff.2 ⟨taken, length, value, rfl⟩⟩

/-- Going on to the next byte looks at how many bits are left, but not past the byte. -/
theorem isLocal_alignToByte {α : Type} (a : α) : IsLocal fun bits => .ok (a, alignToByte bits) := by
  rintro bits _ _ ⟨⟩
  refine ⟨bits.take (bits.length % 8), (List.take_append_drop ..).symm, fun rest' same => ?_⟩
  have length : (bits.take (bits.length % 8)).length = bits.length % 8 := by
    rw [List.length_take]
    omega
  have aligned : rest'.length % 8 = 0 := by
    rw [same, alignToByte, List.length_drop]
    omega
  have whole : (bits.take (bits.length % 8) ++ rest').length % 8 = bits.length % 8 := by
    rw [List.length_append, length]
    omega
  have left : alignToByte (bits.take (bits.length % 8) ++ rest') = rest' := by
    rw [alignToByte, whole, List.drop_left' length]
  exact congrArg (fun rest => Except.ok (a, rest)) left

theorem CodeTree.isLocal_read (code : CodeTree) : IsLocal code.read := by
  induction code with
  | vacant => exact .error .corrupt
  | leaf symbol => exact .pure symbol
  | fork zero one ihZero ihOne =>
    intro bits a rest h
    cases bits with
    | nil => cases h
    | cons b bits =>
      have branch : ∃ used, bits = used ++ rest ∧ ∀ rest', rest'.length % 8 = rest.length % 8 →
          (fork zero one).read (b :: (used ++ rest')) = .ok (a, rest') := by
        cases b with
        | false => exact ihZero h
        | true => exact ihOne h
      obtain ⟨used, rfl, again⟩ := branch
      exact ⟨b :: used, rfl, again⟩

theorem isLocal_takeByRule (rules : List (Nat × Nat)) (symbol : Nat) :
    IsLocal (takeByRule rules symbol) := by
  unfold takeByRule
  split
  · exact .error .corrupt
  · exact (isLocal_takeNat _).bind fun _ _ _ _ => .pure _

/-! ## Codes -/

theorem isLocal_takeOrdered (lengths order : List Nat) (count : Nat) :
    IsLocal (takeOrdered lengths order count) := by
  induction order generalizing lengths count with
  | nil => cases count <;> exact .pure lengths
  | cons place order ih =>
    cases count with
    | zero => exact .pure lengths
    | succ count => exact (isLocal_takeNat 3).bind fun _ _ _ _ => ih _ count

theorem isLocal_takeRepeat (symbol : Nat) (previous? : Option Nat) :
    IsLocal (takeRepeat symbol previous?) := by
  refine .ite (.pure _) (.ite ?_ (.ite ?_ ?_))
  · refine (isLocal_takeNat 2).bind fun _ extra _ _ => ?_
    cases previous? with
    | none => exact .error .corrupt
    | some previous => exact .pure _
  · exact (isLocal_takeNat 3).bind fun _ _ _ _ => .pure _
  · exact (isLocal_takeNat 7).bind fun _ _ _ _ => .pure _

theorem isLocal_takeLengths (code : CodeTree) (total fuel : Nat) (read : List Nat) :
    IsLocal (takeLengths code total fuel read) := by
  induction fuel generalizing read with
  | zero => exact .error .incomplete
  | succ fuel ih =>
    refine .ite (.pure _) ?_
    refine code.isLocal_read.bind fun _ symbol _ _ => ?_
    refine (isLocal_takeRepeat symbol read.head?).bind fun _ counted _ _ => ?_
    exact .ite (.error _) (ih _)

theorem isLocal_takeCodes : IsLocal takeCodes := by
  refine (isLocal_takeNat 14).bind fun _ sizes _ _ => ?_
  refine .ite (.error _) ?_
  refine (isLocal_takeOrdered _ _ _).bind fun _ ordered _ _ => ?_
  refine .bindValue fun code => ?_
  refine (isLocal_takeLengths code _ _ _).bind fun _ all _ _ => ?_
  exact .ite (.error _) (.ite (.pure _) (.error _))

/-- A code in which every run has at least one bit. -/
def CodeTree.IsFork (code : CodeTree) : Prop :=
  ∃ zero one, code = fork zero one

theorem CodeTree.IsFork.insert (symbol : Nat) {bits : List Bool} (notEmpty : bits ≠ [])
    (code : CodeTree) : (code.insert symbol bits).IsFork := by
  obtain ⟨b, bits, rfl⟩ := List.exists_cons_of_ne_nil notEmpty
  unfold CodeTree.insert
  cases b with
  | false => exact ⟨_, _, rfl⟩
  | true => exact ⟨_, _, rfl⟩

theorem isFork_insertAll {symbol : Nat} {next lengths : List Nat} {code : CodeTree}
    (h : code.IsFork) : (insertAll symbol next code lengths).IsFork := by
  induction lengths generalizing symbol next code with
  | nil => exact h
  | cons length lengths ih =>
    cases length with
    | zero => exact ih h
    | succ length => exact ih (.insert _ (by simp [runOf, bitsOfNat]) _)

theorem isFork_codeOfLengths (lengths : List Nat) : (codeOfLengths lengths).IsFork :=
  isFork_insertAll ⟨_, _, rfl⟩

theorem isFork_of_takeCodes {bits rest : List Bool} {lengths distances : CodeTree}
    (h : takeCodes bits = .ok ((lengths, distances), rest)) : lengths.IsFork := by
  obtain ⟨⟨sizes, bits₁⟩, -, h⟩ := bind_eq_ok_iff.1 h
  dsimp only at h
  split at h
  · cases h
  obtain ⟨⟨ordered, bits₂⟩, -, h⟩ := bind_eq_ok_iff.1 h
  obtain ⟨code, -, h⟩ := bind_eq_ok_iff.1 h
  obtain ⟨⟨all, bits₃⟩, -, h⟩ := bind_eq_ok_iff.1 h
  dsimp only at h
  split at h
  · cases h
  split at h
  · obtain ⟨codes, -⟩ := Prod.mk.inj (Except.ok.inj h)
    rw [← (Prod.mk.inj codes).1]
    exact isFork_codeOfLengths _
  · cases h

theorem CodeTree.IsFork.length_lt {code : CodeTree} (h : code.IsFork) {bits rest : List Bool}
    {symbol : Nat} (hread : code.read bits = .ok (symbol, rest)) : rest.length < bits.length := by
  obtain ⟨zero, one, rfl⟩ := h
  cases bits with
  | nil => cases hread
  | cons b bits =>
    refine Nat.lt_succ_of_le ?_
    cases b with
    | false => exact zero.isLocal_read.length_le hread
    | true => exact one.isLocal_read.length_le hread

/-! ## Blocks -/

section Symbols

variable {lengths : CodeTree} (distances : CodeTree)

/-- What a symbol does to the output, and whether more symbols follow. -/
def afterSymbol (out : Array UInt8) (symbol : Nat) : BitReader (Array UInt8 ⊕ Array UInt8) :=
  fun bits =>
    if symbol < 256 then .ok (.inl (out.push (UInt8.ofNat symbol)), bits)
    else if symbol = 256 then .ok (.inr out, bits)
    else do
      let (length, bits) ← takeByRule lengthRules (symbol - 257) bits
      let (symbol, bits) ← distances.read bits
      let (distance, bits) ← takeByRule distanceRules symbol bits
      if out.size < distance then .error .corrupt
      else .ok (.inl (repeatBack distance length out), bits)

theorem isLocal_afterSymbol (out : Array UInt8) (symbol : Nat) :
    IsLocal (afterSymbol distances out symbol) := by
  refine .ite (.pure _) (.ite (.pure _) ?_)
  refine (isLocal_takeByRule _ _).bind fun _ length _ _ => ?_
  refine distances.isLocal_read.bind fun _ symbol _ _ => ?_
  refine (isLocal_takeByRule _ _).bind fun _ distance _ _ => ?_
  exact .ite (.error _) (.pure _)

theorem symbols_succ (fuel : Nat) (out : Array UInt8) (bits : List Bool) :
    symbols lengths distances (fuel + 1) (out, bits) =
      (lengths.read bits >>= fun (symbol, bits) => afterSymbol distances out symbol bits) >>=
        fun (result, bits) => result.elim (fun out => symbols lengths distances fuel (out, bits))
          fun out => .ok (out, bits) := by
  rw [symbols, bind_assoc]
  congr 1
  funext ⟨symbol, bits⟩
  dsimp only
  unfold afterSymbol
  split
  · rfl
  split
  · rfl
  simp only [bind_assoc]
  congr 1
  funext ⟨length, bits⟩
  congr 1
  funext ⟨symbol, bits⟩
  congr 1
  funext ⟨distance, bits⟩
  dsimp only
  split
  · rfl
  · rfl

theorem isLocal_symbols (h : lengths.IsFork) (out : Array UInt8) :
    IsLocal fun bits => symbols lengths distances (bits.length + 1) (out, bits) := by
  refine IsLocal.loop (fun fuel out bits => symbols lengths distances fuel (out, bits))
    (fun _ _ => rfl) (symbols_succ distances) (fun out => ?_) (fun out bits result rest hstep => ?_)
    out
  · exact lengths.isLocal_read.bind fun _ symbol _ _ => isLocal_afterSymbol distances out symbol
  · obtain ⟨⟨symbol, between⟩, hsymbol, hafter⟩ := bind_eq_ok_iff.1 hstep
    exact Nat.lt_of_le_of_lt ((isLocal_afterSymbol distances out symbol).length_le hafter)
      (h.length_lt hsymbol)

end Symbols

theorem isLocal_storedBlock (out : Array UInt8) : IsLocal fun bits => storedBlock (out, bits) := by
  have aligned : IsLocal fun bits => takeNat 16 (alignToByte bits) := by
    show IsLocal fun bits => Except.ok ((), alignToByte bits) >>= fun x => takeNat 16 x.2
    exact (isLocal_alignToByte ()).bind fun _ _ _ _ => isLocal_takeNat 16
  refine aligned.bind fun _ length _ _ => ?_
  refine (isLocal_takeNat 16).bind fun _ complement _ _ => ?_
  refine .ite (.error _) ?_
  exact (isLocal_takeBits _).bind fun _ taken _ _ => .pure _

theorem isLocal_block (type : Nat) (out : Array UInt8) :
    IsLocal fun bits => block type (out, bits) := by
  match type with
  | 0 => exact isLocal_storedBlock out
  | 1 => exact isLocal_symbols _ (isFork_codeOfLengths _) out
  | 2 =>
    refine isLocal_takeCodes.bind fun bits codes rest hcodes => ?_
    exact isLocal_symbols _ (isFork_of_takeCodes hcodes) out
  | _ + 3 => exact .error .corrupt

/-- One block, and whether more follow. -/
def blockStep (out : Array UInt8) : BitReader (Array UInt8 ⊕ Array UInt8) := fun bits => do
  let (header, bits) ← takeNat 3 bits
  let (out, bits) ← block (header / 2) (out, bits)
  .ok (if header % 2 = 1 then .inr out else .inl out, bits)

theorem blocks_succ (fuel : Nat) (out : Array UInt8) (bits : List Bool) :
    blocks (fuel + 1) (out, bits) = blockStep out bits >>= fun (result, bits) =>
      result.elim (fun out => blocks fuel (out, bits)) fun out => .ok (out, bits) := by
  rw [blocks, blockStep]
  simp only [bind_assoc]
  congr 1
  funext ⟨header, bits⟩
  congr 1
  funext ⟨out, bits⟩
  by_cases last : header % 2 = 1
  · simp [last, bind, Except.bind]
  · simp [last, bind, Except.bind]

theorem isLocal_blocks (out : Array UInt8) :
    IsLocal fun bits => blocks (bits.length + 1) (out, bits) := by
  refine IsLocal.loop (fun fuel out bits => blocks fuel (out, bits)) (fun _ _ => rfl) blocks_succ
    (fun out => ?_) (fun out bits result rest hstep => ?_) out
  · refine (isLocal_takeNat 3).bind fun _ header _ _ => ?_
    exact (isLocal_block _ out).bind fun _ _ _ _ => .pure _
  · obtain ⟨⟨header, between⟩, hheader, hafter⟩ := bind_eq_ok_iff.1 hstep
    obtain ⟨⟨out', rest'⟩, hblock, hend⟩ := bind_eq_ok_iff.1 hafter
    obtain ⟨-, rfl⟩ := Prod.mk.inj (Except.ok.inj hend)
    obtain ⟨taken, length, -, rfl⟩ := takeNat_eq_ok_iff.1 hheader
    have le := (isLocal_block _ out).length_le hblock
    rw [List.length_append, length]
    omega

/-! ## Bytes -/

theorem bitsOfBytes_append (bytes bytes' : List UInt8) :
    bitsOfBytes (bytes ++ bytes') = bitsOfBytes bytes ++ bitsOfBytes bytes' := by
  induction bytes with
  | nil => rfl
  | cons b bytes ih => rw [List.cons_append, bitsOfBytes, ih, bitsOfBytes, List.append_assoc]

theorem length_bitsOfBytes (bytes : List UInt8) :
    (bitsOfBytes bytes).length = 8 * bytes.length := by
  induction bytes with
  | nil => rfl
  | cons b bytes ih =>
    rw [bitsOfBytes, List.length_append, ih, List.length_cons, Nat.mul_succ, Nat.add_comm]
    rfl

theorem natOfBits_bitsOfNat (b : UInt8) : natOfBits (bitsOfNat 8 b.toNat) = b.toNat := by
  have all : ∀ n : Fin 256, natOfBits (bitsOfNat 8 n) = n := by
    decide +kernel
  exact all ⟨b.toNat, b.toNat_lt⟩

theorem bytesOfBits_bitsOfBytes (bytes : List UInt8) : bytesOfBits (bitsOfBytes bytes) = bytes := by
  induction bytes with
  | nil => rfl
  | cons b bytes ih =>
    calc bytesOfBits (bitsOfNat 8 b.toNat ++ bitsOfBytes bytes)
        = UInt8.ofNat (natOfBits (bitsOfNat 8 b.toNat)) :: bytesOfBits (bitsOfBytes bytes) := rfl
      _ = b :: bytes := by rw [natOfBits_bitsOfNat, UInt8.ofNat_toNat, ih]

/-- Eight bits are the bits of a byte. -/
theorem bitsOfNat_natOfBits (b₀ b₁ b₂ b₃ b₄ b₅ b₆ b₇ : Bool) :
    bitsOfNat 8 (UInt8.ofNat (natOfBits [b₀, b₁, b₂, b₃, b₄, b₅, b₆, b₇])).toNat =
      [b₀, b₁, b₂, b₃, b₄, b₅, b₆, b₇] := by
  revert b₀ b₁ b₂ b₃ b₄ b₅ b₆ b₇
  decide +kernel

theorem bitsOfBytes_bytesOfBits {bits : List Bool} (whole : bits.length % 8 = 0) :
    bitsOfBytes (bytesOfBits bits) = bits := by
  fun_induction bytesOfBits bits with
  | case1 b₀ b₁ b₂ b₃ b₄ b₅ b₆ b₇ rest ih =>
    have rest_whole : rest.length % 8 = 0 := by
      simp only [List.length_cons] at whole
      omega
    rw [bitsOfBytes, bitsOfNat_natOfBits, ih rest_whole]
    rfl
  | case2 bits short =>
    rcases bits with
      _ | ⟨b₀, _ | ⟨b₁, _ | ⟨b₂, _ | ⟨b₃, _ | ⟨b₄, _ | ⟨b₅, _ | ⟨b₆, _ | ⟨b₇, rest⟩⟩⟩⟩⟩⟩⟩⟩
    case nil => rfl
    case cons.cons.cons.cons.cons.cons.cons.cons =>
      exact absurd rfl (short b₀ b₁ b₂ b₃ b₄ b₅ b₆ b₇ rest)
    all_goals cases whole

/-! ## Inflating -/

/-- The data that deflated bits stand for, and the bits from the next byte on. -/
def inflateBits : BitReader (Array UInt8) := fun bits => do
  let (out, rest) ← blocks (bits.length + 1) (#[], bits)
  .ok (out, alignToByte rest)

theorem isLocal_inflateBits : IsLocal inflateBits :=
  (isLocal_blocks #[]).bind fun _ out _ _ => isLocal_alignToByte out

theorem inflate_iff_bits {bytes data rest : List UInt8} :
    inflate bytes = .ok (data, rest) ↔
      ∃ out, inflateBits (bitsOfBytes bytes) = .ok (out, bitsOfBytes rest) ∧ out.toList = data := by
  constructor
  · intro h
    obtain ⟨⟨out, restBits⟩, hblocks, h⟩ := bind_eq_ok_iff.1 h
    obtain ⟨rfl, rfl⟩ := Prod.mk.inj (Except.ok.inj h)
    have whole : (alignToByte restBits).length % 8 = 0 := by
      rw [alignToByte, List.length_drop]
      omega
    refine ⟨out, ?_, rfl⟩
    rw [bitsOfBytes_bytesOfBits whole]
    exact bind_eq_ok_iff.2 ⟨_, hblocks, rfl⟩
  · rintro ⟨out, h, rfl⟩
    obtain ⟨⟨out', restBits⟩, hblocks, h⟩ := bind_eq_ok_iff.1 h
    obtain ⟨rfl, haligned⟩ := Prod.mk.inj (Except.ok.inj h)
    refine bind_eq_ok_iff.2 ⟨_, hblocks, ?_⟩
    show Except.ok (out'.toList, bytesOfBits (alignToByte restBits)) = _
    rw [haligned, bytesOfBits_bitsOfBytes]

theorem length_bitsOfBytes_mod (bytes : List UInt8) : (bitsOfBytes bytes).length % 8 = 0 := by
  rw [length_bitsOfBytes, Nat.mul_mod_right]

/-- Deflated bytes stand for the same data whatever follows them, and that is left as it is. -/
theorem inflate_eq_ok_iff {bytes data rest : List UInt8} :
    inflate bytes = .ok (data, rest) ↔
      ∃ body, bytes = body ++ rest ∧ inflate body = .ok (data, []) := by
  constructor
  · intro h
    obtain ⟨out, hout, rfl⟩ := inflate_iff_bits.1 h
    obtain ⟨used, hbits, again⟩ := isLocal_inflateBits hout
    have whole : used.length % 8 = 0 := by
      have := congrArg List.length hbits
      rw [List.length_append, length_bitsOfBytes, length_bitsOfBytes] at this
      omega
    have hused := bitsOfBytes_bytesOfBits whole
    refine ⟨bytesOfBits used, ?_, inflate_iff_bits.2 ⟨out, ?_, rfl⟩⟩
    · rw [← bytesOfBits_bitsOfBytes bytes, hbits, ← hused, ← bitsOfBytes_append,
        bytesOfBits_bitsOfBytes, hused]
    · have alone := again [] (length_bitsOfBytes_mod rest).symm
      rwa [List.append_nil, ← hused] at alone
  · rintro ⟨body, rfl, h⟩
    obtain ⟨out, hout, rfl⟩ := inflate_iff_bits.1 h
    obtain ⟨used, hbits, again⟩ := isLocal_inflateBits hout
    refine inflate_iff_bits.2 ⟨out, ?_, rfl⟩
    rw [bitsOfBytes_append, hbits, bitsOfBytes, List.append_nil]
    exact again _ (length_bitsOfBytes_mod rest)

end Calcsheet.Gzip
