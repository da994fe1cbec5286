import Mathlib.Data.List.Basic
import HtmlWalk.Text.Utf8

/-!
# What decoding is

Bytes that are the encoding of a character are decoded to that character. Where no encoding starts,
as many bytes as could still have become one are replaced together, and one byte is replaced if none
could (`IsBroken`). That settles what bytes are decoded to (`Lossy.unique`).

**Theorem (`lossy_iff`).** The decoder does this, byte by byte.

**Theorem (`flatten_piecesOf`).** It does the same however the bytes arrive.

The invariant of the decoder is about the bytes of the character that has been begun (`Begun`):
some encoding starts with them, none is that short, and the next byte goes on with them just if the
decoder says so.
-/

namespace HtmlWalk.Text.Utf8

open String (utf8EncodeChar)

/-! ## Decoding with replacements -/

/-- No encoding starts where these bytes start, and of what comes there, these are as many bytes as
can start an encoding, or one byte if none can. -/
structure IsBroken (part rest : List UInt8) : Prop where
  ne_nil : part ≠ []
  not_encoding : ∀ c, ¬ utf8EncodeChar c <+: part ++ rest
  starts : part.length = 1 ∨ ∃ c, part <+: utf8EncodeChar c
  longest : ∀ c p, p <+: part ++ rest → p <+: utf8EncodeChar c → p.length ≤ part.length

/-- The characters of some bytes, with replacements for the bytes that are no characters. -/
inductive Lossy : List UInt8 → List Char → Prop
  | nil : Lossy [] []
  | char (c : Char) {rest : List UInt8} {cs : List Char} (h : Lossy rest cs) :
    Lossy (utf8EncodeChar c ++ rest) (c :: cs)
  | broken {part rest : List UInt8} {cs : List Char} (hpart : IsBroken part rest)
    (h : Lossy rest cs) : Lossy (part ++ rest) ('\ufffd' :: cs)

/-! ## Encodings -/

/-- The bytes of a code point. -/
def codes (v : Nat) : List Nat :=
  if v < 0x80 then [v]
  else if v < 0x800 then [v / 64 + 0xc0, v % 64 + 0x80]
  else if v < 0x10000 then [v / 4096 + 0xe0, v / 64 % 64 + 0x80, v % 64 + 0x80]
  else [v / 262144 + 0xf0, v / 4096 % 64 + 0x80, v / 64 % 64 + 0x80, v % 64 + 0x80]

/-- The code points of characters. -/
theorem toNat_bounds (c : Char) :
    c.toNat < 0xd800 ∨ 0xdfff < c.toNat ∧ c.toNat < 0x110000 :=
  c.valid

theorem toNat_ofNat {n : Nat} (h : n.isValidChar) : (Char.ofNat n).toNat = n := by
  rw [Char.ofNat, dif_pos h]
  rfl

theorem map_toNat_encode (c : Char) : (utf8EncodeChar c).map UInt8.toNat = codes c.toNat := by
  have hbounds := toNat_bounds c
  have hval : c.val.toNat = c.toNat := rfl
  unfold utf8EncodeChar codes
  dsimp only
  rw [hval]
  split_ifs <;> simp <;> omega

theorem encode_ne_nil (c : Char) : utf8EncodeChar c ≠ [] := by
  have hcodes : codes c.toNat ≠ [] := by
    unfold codes
    split_ifs <;> simp
  rw [← map_toNat_encode] at hcodes
  exact fun hnil => hcodes (congrArg (List.map UInt8.toNat) hnil)

/-- The bytes that an encoding starts with. -/
theorem prefix_encode_iff {part : List UInt8} {c : Char} :
    part <+: utf8EncodeChar c ↔ part.map UInt8.toNat <+: codes c.toNat := by
  rw [← map_toNat_encode, List.prefix_map_iff_of_injective fun _ _ => UInt8.toNat_inj.1]

theorem encode_eq_iff {bytes : List UInt8} {c : Char} :
    utf8EncodeChar c = bytes ↔ codes c.toNat = bytes.map UInt8.toNat := by
  rw [← map_toNat_encode, (List.map_injective_iff.2 fun _ _ => UInt8.toNat_inj.1).eq_iff]

theorem encode_prefix_iff {part : List UInt8} {c : Char} :
    utf8EncodeChar c <+: part ↔ codes c.toNat <+: part.map UInt8.toNat := by
  rw [← map_toNat_encode, List.prefix_map_iff_of_injective fun _ _ => UInt8.toNat_inj.1]

/-- A code point is known from its bytes, and where they end as well. -/
theorem eq_of_codes_start {v w : Nat} (hv : v < 0x110000) (hw : w < 0x110000)
    (h : codes v <+: codes w) : v = w := by
  unfold codes at h
  split_ifs at h <;> simp [List.cons_prefix_cons] at h <;> omega

/-- Bytes start with one encoding at most. -/
theorem eq_of_encode_start {c d : Char} {bytes : List UInt8} (hc : utf8EncodeChar c <+: bytes)
    (hd : utf8EncodeChar d <+: bytes) : c = d := by
  have hlt : ∀ c : Char, c.toNat < 0x110000 := fun c => by
    have hbounds := toNat_bounds c
    omega
  have hcodes : c.toNat = d.toNat := by
    rw [encode_prefix_iff] at hc hd
    rcases List.prefix_or_prefix_of_prefix hc hd with h | h
    · exact eq_of_codes_start (hlt c) (hlt d) h
    · exact (eq_of_codes_start (hlt d) (hlt c) h).symm
  exact Char.toNat_inj.1 hcodes

/-! ## Beginnings -/

/-- The bytes that have been read of a character, and what the decoder knows of it. -/
inductive Begun : List Nat → Beginning → Prop
  | two {x : Nat} (hx : 0xc2 ≤ x ∧ x < 0xe0) :
    Begun [x] { size := 1, bits := x - 0xc0, missing := 1 }
  | three {x : Nat} (hx : 0xe0 ≤ x ∧ x < 0xf0) :
    Begun [x]
      { size := 1, bits := x - 0xe0, missing := 2
        low := if x = 0xe0 then 0xa0 else 0x80
        high := if x = 0xed then 0x9f else 0xbf }
  | three_two {x y : Nat} (hx : 0xe0 ≤ x ∧ x < 0xf0)
    (hy : (if x = 0xe0 then 0xa0 else 0x80) ≤ y ∧ y ≤ (if x = 0xed then 0x9f else 0xbf)) :
    Begun [x, y] { size := 2, bits := (x - 0xe0) * 0x40 + (y - 0x80), missing := 1 }
  | four {x : Nat} (hx : 0xf0 ≤ x ∧ x < 0xf5) :
    Begun [x]
      { size := 1, bits := x - 0xf0, missing := 3
        low := if x = 0xf0 then 0x90 else 0x80
        high := if x = 0xf4 then 0x8f else 0xbf }
  | four_two {x y : Nat} (hx : 0xf0 ≤ x ∧ x < 0xf5)
    (hy : (if x = 0xf0 then 0x90 else 0x80) ≤ y ∧ y ≤ (if x = 0xf4 then 0x8f else 0xbf)) :
    Begun [x, y] { size := 2, bits := (x - 0xf0) * 0x40 + (y - 0x80), missing := 2 }
  | four_three {x y z : Nat} (hx : 0xf0 ≤ x ∧ x < 0xf5)
    (hy : (if x = 0xf0 then 0x90 else 0x80) ≤ y ∧ y ≤ (if x = 0xf4 then 0x8f else 0xbf))
    (hz : 0x80 ≤ z ∧ z ≤ 0xbf) :
    Begun [x, y, z]
      { size := 3, bits := ((x - 0xf0) * 0x40 + (y - 0x80)) * 0x40 + (z - 0x80), missing := 1 }

namespace Begun

variable {part : List Nat} {b : Beginning} (h : Begun part b)
include h

/-- There is a byte that can come next. -/
theorem low_le_high : b.low ≤ b.high := by
  cases h with
  | three | four =>
    dsimp only
    split_ifs <;> omega
  | _ =>
    dsimp only
    omega

/-- No encoding ends before. -/
theorem not_codes (c : Char) : ¬ codes c.toNat <+: part := by
  unfold codes
  cases h <;> split_ifs <;> simp [List.cons_prefix_cons] <;> omega

/-- Other bytes cannot come next. -/
theorem not_start {x : Nat} (hx : ¬ (b.low ≤ x ∧ x ≤ b.high)) (c : Char) :
    ¬ part ++ [x] <+: codes c.toNat := by
  have hbounds := toNat_bounds c
  unfold codes
  cases h <;> dsimp only at hx <;> split_ifs at * <;> simp [List.cons_prefix_cons] <;> omega

/-- The byte that comes next goes on with the character. -/
theorem next {x : Nat} (hx : b.low ≤ x ∧ x ≤ b.high) (hmissing : 1 < b.missing) :
    Begun (part ++ [x])
      { size := b.size + 1, bits := b.bits * 0x40 + (x - 0x80), missing := b.missing - 1 } := by
  cases h with
  | two | three_two | four_three => simp at hmissing
  | three hx' => exact .three_two hx' hx
  | four hx' => exact .four_two hx' hx
  | four_two hx' hy => exact .four_three hx' hy hx

/-- The last byte ends the character. -/
theorem last {x : Nat} (hx : b.low ≤ x ∧ x ≤ b.high) (hmissing : b.missing ≤ 1) :
    codes (Char.ofNat (b.bits * 0x40 + (x - 0x80))).toNat = part ++ [x] := by
  cases h with
  | two hx' =>
    dsimp only at hx ⊢
    rw [toNat_ofNat (by unfold Nat.isValidChar; omega), codes]
    split_ifs <;> simp <;> omega
  | three_two hx' hy =>
    dsimp only at hx ⊢
    rw [toNat_ofNat (by unfold Nat.isValidChar; split_ifs at hy <;> omega), codes]
    split_ifs at * <;> simp <;> omega
  | four_three hx' hy hz =>
    dsimp only at hx ⊢
    rw [toNat_ofNat (by unfold Nat.isValidChar; split_ifs at hy <;> omega), codes]
    split_ifs at * <;> simp <;> omega
  | _ => simp at hmissing

/-- Some encoding starts like this. -/
theorem exists_start : ∃ c : Char, part <+: codes c.toNat := by
  have hlow : b.low ≤ b.low ∧ b.low ≤ b.high := ⟨Nat.le_refl _, h.low_le_high⟩
  generalize hn : b.missing = n
  induction n generalizing part b with
  | zero => exact ⟨_, (h.last hlow (by omega)) ▸ List.prefix_append part _⟩
  | succ n ih =>
    by_cases hmissing : b.missing ≤ 1
    · exact ⟨_, (h.last hlow hmissing) ▸ List.prefix_append part _⟩
    · have hnext := h.next hlow (by omega)
      obtain ⟨c, hc⟩ := ih hnext ⟨Nat.le_refl _, hnext.low_le_high⟩ (by dsimp only; omega)
      exact ⟨c, (List.prefix_append part _).trans hc⟩

end Begun

/-- Some bytes start no encoding. -/
theorem not_prefix_first {x : Nat} (hx : 0x80 ≤ x ∧ x < 0xc2 ∨ 0xf5 ≤ x) (c : Char) :
    ¬ [x] <+: codes c.toNat := by
  have hbounds := toNat_bounds c
  unfold codes
  split_ifs <;> simp [List.cons_prefix_cons] <;> omega

/-! ## The decoder -/

/-- The character that is shown for what has been decoded. -/
def Decoded.shown : Decoded → Char
  | char c => c
  | broken => '\ufffd'

/-- The characters that are shown for what has been decoded; a character that is cut off counts. -/
def shown (decoded : List Decoded × Option Beginning) : List Char :=
  decoded.1.map Decoded.shown ++ (finish decoded.2).flatten

/-- Bytes are broken off where the next one cannot go on with them. -/
theorem isBroken_of_stuck {part rest : List UInt8} (hne : part ≠ [])
    (hstarts : part.length = 1 ∨ ∃ c, part <+: utf8EncodeChar c)
    (hshort : ∀ c, ¬ utf8EncodeChar c <+: part)
    (hnext : ∀ x ∈ rest.head?, ∀ c, ¬ part ++ [x] <+: utf8EncodeChar c) : IsBroken part rest := by
  have hlonger : ∀ c p, p <+: part ++ rest → p <+: utf8EncodeChar c → p.length ≤ part.length := by
    intro c p hp hc
    by_contra hlt
    obtain ⟨q, rfl⟩ := List.prefix_of_prefix_length_le (List.prefix_append part rest) hp (by omega)
    have hq := (List.prefix_append_right_inj part).1 hp
    cases q with
    | nil => simp at hlt
    | cons x q =>
      obtain ⟨rest, rfl⟩ := hq
      refine hnext x rfl c (.trans ?_ hc)
      exact ⟨q, by simp⟩
  refine ⟨hne, fun c hc => ?_, hstarts, hlonger⟩
  have hle := hlonger c _ hc (List.prefix_refl _)
  exact hshort c (List.prefix_of_prefix_length_le hc (List.prefix_append part rest) hle)

/-- A byte that starts no encoding is broken by itself. -/
theorem isBroken_singleton {x : UInt8} {rest : List UInt8}
    (hx : 0x80 ≤ x.toNat ∧ x.toNat < 0xc2 ∨ 0xf5 ≤ x.toNat) : IsBroken [x] rest := by
  have hfirst : ∀ c, ¬ [x] <+: utf8EncodeChar c := fun c h =>
    not_prefix_first hx c (prefix_encode_iff.1 h)
  refine isBroken_of_stuck (List.cons_ne_nil x []) (.inl rfl) (fun c h => ?_) fun y _ c h =>
    hfirst c ((List.prefix_append [x] [y]).trans h)
  obtain ⟨y, l, hc⟩ := List.exists_cons_of_ne_nil (encode_ne_nil c)
  have hy := hfirst c
  rw [hc] at h hy
  exact hy ((List.cons_prefix_cons.1 h).1 ▸ ⟨l, rfl⟩)

namespace Begun

variable {part : List UInt8} {b : Beginning} (h : Begun (part.map UInt8.toNat) b)
include h

theorem isBroken {rest : List UInt8}
    (hrest : ∀ x ∈ rest.head?, ¬ (b.low ≤ x.toNat ∧ x.toNat ≤ b.high)) : IsBroken part rest := by
  refine isBroken_of_stuck ?_ (.inr ?_) (fun c => ?_) fun x hx c => ?_
  · rintro rfl
    cases h
  · obtain ⟨c, hc⟩ := h.exists_start
    exact ⟨c, prefix_encode_iff.2 hc⟩
  · rw [encode_prefix_iff]
    exact h.not_codes c
  · rw [prefix_encode_iff, List.map_append]
    exact h.not_start (hrest x hx) c

end Begun

theorem shown_cons (state : Option Beginning) (x : UInt8) (bytes : List UInt8) :
    shown (decode state (x :: bytes)) = shown ((next state x.toNat).1, none) ++
      shown (decode (next state x.toNat).2 bytes) := by
  simp only [shown, decode, List.map_append, List.append_assoc]
  rfl

/-- The first byte of a character, with what comes after it. -/
theorem lossy_first {x : UInt8} {bytes : List UInt8}
    (hnone : Lossy bytes (shown (decode none bytes)))
    (hsome : ∀ part b, Begun (part.map UInt8.toNat) b →
      Lossy (part ++ bytes) (shown (decode (some b) bytes))) :
    Lossy (x :: bytes) (shown (decode none (x :: bytes))) := by
  have hbroken : 0x80 ≤ x.toNat ∧ x.toNat < 0xc2 ∨ 0xf5 ≤ x.toNat →
      Lossy (x :: bytes) ('\ufffd' :: shown (decode none bytes)) := fun hx =>
    .broken (isBroken_singleton hx) hnone
  rw [shown_cons, next]
  unfold first
  split
  · next hx =>
    have hcodes : codes (Char.ofNat x.toNat).toNat = [x].map UInt8.toNat := by
      rw [toNat_ofNat (by unfold Nat.isValidChar; omega), codes, if_pos hx]
      rfl
    have hchar := Lossy.char (Char.ofNat x.toNat) hnone
    rwa [encode_eq_iff.2 hcodes] at hchar
  · split
    · exact hbroken (by omega)
    · split
      · exact hsome [x] _ (.two (by omega))
      · split
        · exact hsome [x] _ (.three (by omega))
        · split
          · exact hsome [x] _ (.four (by omega))
          · exact hbroken (by omega)

/-- **What the decoder shows is what the bytes are decoded to**, from the start of a character and
after the beginning of one. -/
theorem lossy_decode_append (bytes : List UInt8) :
    Lossy bytes (shown (decode none bytes)) ∧
    ∀ part b, Begun (part.map UInt8.toNat) b →
      Lossy (part ++ bytes) (shown (decode (some b) bytes)) := by
  induction bytes with
  | nil =>
    refine ⟨.nil, fun part b h => ?_⟩
    exact .broken (h.isBroken nofun) .nil
  | cons x bytes ih =>
    obtain ⟨hnone, hsome⟩ := ih
    have hfirst : Lossy (x :: bytes) (shown (decode none (x :: bytes))) := lossy_first hnone hsome
    refine ⟨hfirst, fun part b h => ?_⟩
    rw [shown_cons, next]
    by_cases hx : b.low ≤ x.toNat ∧ x.toNat ≤ b.high
    · rw [if_pos hx, List.append_cons]
      dsimp only
      split
      · next hmissing =>
        have hlast := h.last hx hmissing
        rw [← (encode_eq_iff.2 (hlast.trans (by simp)) : utf8EncodeChar _ = part ++ [x])]
        exact .char _ hnone
      · next hmissing => exact hsome _ _ (by simpa using h.next hx (by omega))
    · rw [if_neg hx]
      rw [shown_cons] at hfirst
      exact .broken (h.isBroken fun y hy => by obtain rfl := Option.some.inj hy; exact hx) hfirst

/-- What bytes are decoded to is shown by the decoder. -/
theorem lossy_decode (bytes : List UInt8) : Lossy bytes (shown (decode none bytes)) :=
  (lossy_decode_append bytes).1

/-- Of one list of bytes, two broken parts are the same. -/
theorem IsBroken.length_le {part rest part' rest' : List UInt8} (h : IsBroken part rest)
    (h' : IsBroken part' rest') (heq : part ++ rest = part' ++ rest') :
    part'.length ≤ part.length := by
  rcases h'.starts with hone | ⟨c, hc⟩
  · rw [hone]
    exact List.length_pos_of_ne_nil h.ne_nil
  · exact h.longest c part' (heq ▸ List.prefix_append part' rest') hc

/-- **Bytes are decoded in one way only.** -/
theorem Lossy.unique {bytes : List UInt8} {cs cs' : List Char} (h : Lossy bytes cs)
    (h' : Lossy bytes cs') : cs = cs' := by
  induction h generalizing cs' with
  | nil =>
    generalize hbytes : ([] : List UInt8) = bytes at h'
    cases h' with
    | nil => rfl
    | char c h' => exact absurd (List.append_eq_nil_iff.1 hbytes.symm).1 (encode_ne_nil c)
    | broken hpart h' => exact absurd (List.append_eq_nil_iff.1 hbytes.symm).1 hpart.ne_nil
  | @char c rest cs h ih =>
    generalize hbytes : utf8EncodeChar c ++ rest = bytes at h'
    cases h' with
    | nil => exact absurd (List.append_eq_nil_iff.1 hbytes).1 (encode_ne_nil c)
    | @char d rest' cs' h' =>
      obtain rfl : c = d := by
        refine eq_of_encode_start (List.prefix_append _ rest) ?_
        exact hbytes ▸ List.prefix_append _ rest'
      rw [ih (List.append_cancel_left hbytes ▸ h')]
    | @broken part rest' cs' hpart h' =>
      exact absurd (hbytes ▸ List.prefix_append _ rest) (hpart.not_encoding c)
  | @broken part rest cs hpart h ih =>
    generalize hbytes : part ++ rest = bytes at h'
    cases h' with
    | nil => exact absurd (List.append_eq_nil_iff.1 hbytes).1 hpart.ne_nil
    | @char c rest' cs' h' =>
      exact absurd (hbytes ▸ List.prefix_append _ rest') (hpart.not_encoding c)
    | @broken part' rest' cs' hpart' h' =>
      have hlength := Nat.le_antisymm (hpart'.length_le hpart hbytes.symm)
        (hpart.length_le hpart' hbytes)
      obtain ⟨rfl, rfl⟩ := List.append_inj hbytes hlength
      rw [ih h']

/-- **Decoding replaces what is no character**, and nothing else. -/
theorem lossy_iff {bytes : List UInt8} {cs : List Char} :
    Lossy bytes cs ↔ cs = shown (decode none bytes) :=
  ⟨fun h => h.unique (lossy_decode bytes), fun h => h ▸ lossy_decode bytes⟩

/-! ## Pieces -/

theorem decode_append (state : Option Beginning) (x y : List UInt8) : decode state (x ++ y) =
    ((decode state x).1 ++ (decode (decode state x).2 y).1, (decode (decode state x).2 y).2) := by
  induction x generalizing state with
  | nil => rfl
  | cons b x ih => simp only [List.cons_append, decode, ih, List.append_assoc]

theorem flatten_pieces (run : List Char) (decoded : List Decoded) :
    (pieces run decoded).flatten = run.reverse ++ decoded.map Decoded.shown := by
  have hclose : ∀ run, (pieces.close run).flatten = run.reverse := by
    intro run
    unfold pieces.close
    split <;> simp_all
  induction decoded generalizing run with
  | nil => simp [pieces, hclose]
  | cons d decoded ih =>
    cases d with
    | char c => simp [pieces, ih, Decoded.shown]
    | broken => simp [pieces, ih, hclose, Decoded.shown]

theorem takeBytes_append (room : Nat) (decoded : List Decoded) :
    (takeBytes room decoded).1 ++ (takeBytes room decoded).2.map Decoded.shown =
      decoded.map Decoded.shown := by
  fun_induction takeBytes room decoded <;> simp_all [Decoded.shown]

/-- What bytes are decoded to does not depend on the pieces that they make. -/
theorem flatten_feed (state : Option Beginning) (bytes : List UInt8) :
    (feed state bytes).1.flatten = (decode state bytes).1.map Decoded.shown := by
  unfold feed
  dsimp only
  cases state with
  | none => simp [flatten_pieces]
  | some b =>
    have hjoined := takeBytes_append 4 (decode (some b) bytes).1
    dsimp only
    split
    · next hnil =>
      rw [List.isEmpty_iff.1 hnil] at hjoined
      simpa [flatten_pieces] using hjoined
    · simpa [flatten_pieces] using hjoined

/-- The pieces that bytes make if they arrive like this and no more come. -/
def piecesOf (state : Option Beginning) : List (List UInt8) → List (List Char)
  | [] => finish state
  | bytes :: rest => (feed state bytes).1 ++ piecesOf (feed state bytes).2 rest

/-- **However bytes arrive, they are decoded to the same characters.** -/
theorem flatten_piecesOf (state : Option Beginning) (reads : List (List UInt8)) :
    (piecesOf state reads).flatten = shown (decode state reads.flatten) := by
  induction reads generalizing state with
  | nil => rfl
  | cons bytes rest ih =>
    have hafter : (feed state bytes).2 = (decode state bytes).2 := rfl
    simp only [piecesOf, List.flatten_append, flatten_feed, ih, hafter, List.flatten_cons,
      decode_append, shown, List.map_append, List.append_assoc]

end HtmlWalk.Text.Utf8
