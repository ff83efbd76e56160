import Mathlib.Tactic.SplitIfs
import Stubsmith.Proofs.Positions

namespace Stubsmith.Text

open String (utf8EncodeChar)

/-- Numbers below a bound written so that the smaller of two comes first, whatever follows. -/
def Ascending (bound : Nat) (write : Nat → List UInt8) : Prop :=
  ∀ m n x y, m < n → n < bound → write m ++ x < write n ++ y

variable {m n bound cut : Nat} {x y : List UInt8} {f g : Nat → List UInt8}

theorem ofNat_cons_lt (hm : m < 256) (hn : n < 256) :
    UInt8.ofNat m :: x < UInt8.ofNat n :: y ↔ m < n ∨ m = n ∧ x < y := by
  have hm' : (UInt8.ofNat m).toNat = m := by rw [UInt8.toNat_ofNat', Nat.mod_eq_of_lt hm]
  have hn' : (UInt8.ofNat n).toNat = n := by rw [UInt8.toNat_ofNat', Nat.mod_eq_of_lt hn]
  rw [List.cons_lt_cons_iff, UInt8.lt_iff_toNat_lt, ← UInt8.toNat_inj, hm', hn']

theorem ascending_byte (bound base : Nat) (h : base + bound ≤ 256) :
    Ascending bound fun n => [UInt8.ofNat (n % bound + base)] := by
  intro m n x y hmn hn
  have hm : m < bound := hmn.trans hn
  simp only [Nat.mod_eq_of_lt hm, Nat.mod_eq_of_lt hn]
  exact (ofNat_cons_lt (by omega) (by omega)).2 (.inl (by omega))

/-- Another six bits in a byte of their own. -/
theorem Ascending.withLow (h : Ascending bound f) :
    Ascending (bound * 64) fun n => f (n / 64) ++ [UInt8.ofNat (n % 64 + 128)] := by
  intro m n x y hmn hn
  simp only [List.append_assoc]
  by_cases hhigh : m / 64 < n / 64
  · exact h _ _ _ _ hhigh (by omega)
  · have hsame : m / 64 = n / 64 := by omega
    rw [hsame]
    exact List.append_left_lt ((ofNat_cons_lt (by omega) (by omega)).2 (.inl (by omega)))

theorem Ascending.ite (hf : Ascending (cut + 1) f) (hg : Ascending bound g)
    (hfg : ∀ m n x y, m ≤ cut → cut < n → n < bound → f m ++ x < g n ++ y) :
    Ascending bound fun n => if n ≤ cut then f n else g n := by
  intro m n x y hmn hn
  by_cases hm : m ≤ cut
  · by_cases hn' : n ≤ cut
    · simpa [hm, hn'] using hf m n x y hmn (by omega)
    · simpa [hm, hn'] using hfg m n x y hm (by omega) hn
  · have hn' : ¬n ≤ cut := by omega
    simpa [hm, hn'] using hg m n x y hmn hn

/-- What is written for the code of a character. -/
def encodeCode (v : Nat) : List UInt8 :=
  if v ≤ 0x7f then [UInt8.ofNat v]
  else if v ≤ 0x7ff then [UInt8.ofNat (v / 64 % 0x20 + 0xc0), UInt8.ofNat (v % 64 + 0x80)]
  else if v ≤ 0xffff then
    [UInt8.ofNat (v / 4096 % 0x10 + 0xe0), UInt8.ofNat (v / 64 % 64 + 0x80),
      UInt8.ofNat (v % 64 + 0x80)]
  else
    [UInt8.ofNat (v / 262144 % 0x08 + 0xf0), UInt8.ofNat (v / 4096 % 64 + 0x80),
      UInt8.ofNat (v / 64 % 64 + 0x80), UInt8.ofNat (v % 64 + 0x80)]

theorem utf8EncodeChar_eq (c : Char) : utf8EncodeChar c = encodeCode c.val.toNat :=
  rfl

theorem ascending_encodeCode : Ascending 0x200000 encodeCode := by
  have hone : Ascending 0x80 fun v => [UInt8.ofNat v] := by
    intro m n x y hmn hn
    exact (ofNat_cons_lt (by omega) (by omega)).2 (.inl hmn)
  have htwo := (ascending_byte 0x20 0xc0 (by omega)).withLow
  have hthree := (ascending_byte 0x10 0xe0 (by omega)).withLow.withLow
  have hfour := (ascending_byte 0x08 0xf0 (by omega)).withLow.withLow.withLow
  simp only [Nat.div_div_eq_div_mul, List.append_assoc, List.singleton_append] at hthree hfour
  have first {v w : Nat} (h : v < w) (hw : w < 256) (x y : List UInt8) :
      UInt8.ofNat v :: x < UInt8.ofNat w :: y := (ofNat_cons_lt (by omega) hw).2 (.inl h)
  refine hone.ite (htwo.ite (hthree.ite hfour ?_) ?_) ?_
  · intro m n x y hm hn hmax
    exact first (by omega) (by omega) _ _
  · intro m n x y hm hn hmax
    split_ifs <;> exact first (by omega) (by omega) _ _
  · intro m n x y hm hn hmax
    split_ifs <;> exact first (by omega) (by omega) _ _

theorem utf8EncodeChar_append_lt {c d : Char} (h : c < d) (x y : List UInt8) :
    utf8EncodeChar c ++ x < utf8EncodeChar d ++ y := by
  have hvalid : d.val.toNat.isValidChar := d.valid
  have hmax : d.val.toNat < 0x200000 := by rcases hvalid with h | h <;> omega
  rw [utf8EncodeChar_eq, utf8EncodeChar_eq]
  exact ascending_encodeCode _ _ x y (UInt32.lt_iff_toNat_lt.1 h) hmax

/-- Of two texts the one that comes first by its characters comes first by its bytes. -/
theorem bytes_lt_of_lt {s t : String} (h : s < t) :
    s.toUTF8.data.toList < t.toUTF8.data.toList := by
  rw [toUTF8_toList, toUTF8_toList]
  have hchars := String.lt_iff.1 h
  generalize s.toList = cs at *
  generalize t.toList = ds at *
  induction cs generalizing ds with
  | nil =>
    cases ds with
    | nil => exact absurd hchars (List.lt_irrefl [])
    | cons d ds =>
      obtain ⟨b, bs, hd⟩ := List.exists_cons_of_ne_nil (String.utf8EncodeChar_ne_nil (c := d))
      rw [List.flatMap_nil, List.flatMap_cons, hd, List.cons_append]
      exact List.nil_lt_cons _ _
  | cons c cs ih =>
    cases ds with
    | nil => exact absurd hchars (List.not_lt_nil _)
    | cons d ds =>
      rw [List.flatMap_cons, List.flatMap_cons]
      rcases List.cons_lt_cons_iff.1 hchars with hcd | ⟨rfl, hlt⟩
      · exact utf8EncodeChar_append_lt hcd _ _
      · exact List.append_left_lt (ih _ hlt)

end Stubsmith.Text
