import Mathlib.Data.List.Infix
import Mathlib.Data.List.TakeWhile

/-!
# Text files as bytes

UTF-8 text and the line reader of a buffered byte file: `utf8`/`fromUtf8` are `str::as_bytes` and
`String::from_utf8`, `readLines` is `BufRead::lines`. A line ends at the byte `0x0A`; a carriage
return before it is dropped with it; a last line without a terminator is a line all the same; a
line that is not UTF-8 reads as an error.
-/

namespace Text

abbrev Bytes := List UInt8

/-- The byte of `'\n'`. -/
def newline : UInt8 := 10

def utf8 (s : String) : Bytes := s.toList.flatMap String.utf8EncodeChar

def fromUtf8 (bs : Bytes) : Option String := String.fromUTF8? bs.toByteArray

/-! ### UTF-8 -/

theorem toByteArray_utf8 (s : String) : (utf8 s).toByteArray = s.toByteArray := by
  rw [← String.utf8Encode_toList]; rfl

@[simp] theorem utf8_empty : utf8 "" = [] := rfl

@[simp] theorem utf8_append (s t : String) : utf8 (s ++ t) = utf8 s ++ utf8 t := by
  simp [utf8]

theorem utf8_injective {s t : String} (h : utf8 s = utf8 t) : s = t := by
  rw [← String.toByteArray_inj, ← toByteArray_utf8, ← toByteArray_utf8, h]

@[simp] theorem fromUtf8_utf8 (s : String) : fromUtf8 (utf8 s) = some s := by
  have h : (utf8 s).toByteArray.IsValidUTF8 := by rw [toByteArray_utf8]; exact s.isValidUTF8
  rw [fromUtf8, String.fromUTF8?, dif_pos h, Option.some.injEq, ← String.toByteArray_inj]
  exact toByteArray_utf8 s

theorem utf8_of_fromUtf8 {bs : Bytes} {s : String} (h : fromUtf8 bs = some s) : utf8 s = bs := by
  rw [fromUtf8, String.fromUTF8?] at h
  split at h
  · rw [Option.some.injEq] at h
    rw [← List.toByteArray_inj, toByteArray_utf8, ← h]; rfl
  · cases h

theorem fromUtf8_eq_some {bs : Bytes} {s : String} : fromUtf8 bs = some s ↔ utf8 s = bs :=
  ⟨utf8_of_fromUtf8, fun h => h ▸ fromUtf8_utf8 s⟩

/-- Text read from the first bytes of `s` is a prefix of `s`. -/
theorem prefix_of_utf8_append {s t : String} {bs : Bytes} (h : utf8 s ++ bs = utf8 t) :
    s.toList <+: t.toList := by
  refine List.isPrefix_of_utf8Encode_append_eq_utf8Encode bs.toByteArray ?_
  rw [String.utf8Encode_toList, String.utf8Encode_toList, ← toByteArray_utf8, ← toByteArray_utf8,
    ← List.toByteArray_append, h]

/-- A byte below `0x80` in the encoding of `c` is `c` itself. -/
theorem ascii_mem_utf8EncodeChar {c : Char} {b : UInt8} (hb : b.toNat < 128)
    (h : b ∈ String.utf8EncodeChar c) : c.val.toNat = b.toNat := by
  have ofNat_toNat : ∀ n, n < 256 → (UInt8.ofNat n).toNat = n := fun n hn => by
    simp [Nat.mod_eq_of_lt hn]
  simp only [String.utf8EncodeChar] at h
  split at h
  · rw [List.mem_singleton] at h
    rw [h, ofNat_toNat _ (by omega)]
  · exfalso
    have hlt : ∀ n, 128 ≤ n → n < 256 → b ≠ UInt8.ofNat n := fun n h1 h2 he => by
      rw [he, ofNat_toNat n h2] at hb; omega
    split at h
    · simp only [List.mem_cons, List.not_mem_nil, or_false] at h
      rcases h with h | h <;> exact hlt _ (by omega) (by omega) h
    · split at h <;> simp only [List.mem_cons, List.not_mem_nil, or_false] at h
      · rcases h with h | h | h <;> exact hlt _ (by omega) (by omega) h
      · rcases h with h | h | h | h <;> exact hlt _ (by omega) (by omega) h

/-- Bytes before an ASCII byte of a text are text. -/
theorem utf8_before_ascii {cs : List Char} {bs rest : Bytes} {b : UInt8} (hb : b.toNat < 128)
    (h : cs.flatMap String.utf8EncodeChar = bs ++ b :: rest) :
    ∃ as : List Char, as.flatMap String.utf8EncodeChar = bs := by
  induction cs generalizing bs with
  | nil => simp at h
  | cons c cs ih =>
    rw [List.flatMap_cons] at h
    rcases List.append_eq_append_iff.1 h with ⟨as, hbs, hcs⟩ | ⟨as, hc, hrest⟩
    · obtain ⟨ds, hds⟩ := ih hcs
      exact ⟨c :: ds, by rw [List.flatMap_cons, hds, hbs]⟩
    rcases as with _ | ⟨a, as⟩
    · exact ⟨[c], by rw [List.flatMap_cons, hc]; simp⟩
    -- the byte is in the encoding of `c`, which is then that byte alone
    · rw [List.cons_append, List.cons.injEq] at hrest
      have hmem : b ∈ String.utf8EncodeChar c := by rw [hc, hrest.1]; simp
      have hval := ascii_mem_utf8EncodeChar hb hmem
      have hlen := congrArg List.length hc
      rw [String.length_utf8EncodeChar, List.length_append, List.length_cons, Char.utf8Size,
        if_pos (UInt32.le_iff_toNat_le.2 (by show c.val.toNat ≤ 127; omega))] at hlen
      exact ⟨[], by rw [List.length_eq_zero_iff.1 (by omega : bs.length = 0)]; rfl⟩

/-- Text that ends in a text with an ASCII character in front splits there. -/
theorem fromUtf8_append {bs : Bytes} {s t : String} {a : Char} {as : List Char}
    (ha : a.val.toNat < 128) (ht : t.toList = a :: as) (h : fromUtf8 (bs ++ utf8 t) = some s) :
    ∃ r, fromUtf8 bs = some r ∧ s = r ++ t := by
  have hs := utf8_of_fromUtf8 h
  have hhead : utf8 t = UInt8.ofNat a.val.toNat :: as.flatMap String.utf8EncodeChar := by
    rw [utf8, ht, List.flatMap_cons, String.utf8EncodeChar, if_pos (by show a.val.toNat ≤ 127; omega)]
    rfl
  have hascii : (UInt8.ofNat a.val.toNat).toNat < 128 := by
    rwa [UInt8.toNat_ofNat_of_lt' (by show _ < 256; omega)]
  rw [hhead] at hs
  obtain ⟨cs, hcs⟩ := utf8_before_ascii hascii hs
  have hcs : utf8 (String.ofList cs) = bs := by rw [utf8, String.toList_ofList, hcs]
  refine ⟨String.ofList cs, fromUtf8_eq_some.2 hcs, utf8_injective ?_⟩
  rw [hs, utf8_append, hcs, hhead]

/-- The byte of an ASCII character. -/
theorem ascii_mem_utf8 {s : String} {a : Char} (ha : a.val.toNat < 128) :
    UInt8.ofNat a.val.toNat ∈ utf8 s ↔ a ∈ s.toList := by
  have hascii : (UInt8.ofNat a.val.toNat).toNat = a.val.toNat := UInt8.toNat_ofNat_of_lt' (by show _ < 256; omega)
  rw [utf8, List.mem_flatMap]
  constructor
  · rintro ⟨c, hc, hb⟩
    have hv := ascii_mem_utf8EncodeChar (by omega) hb
    rw [hascii] at hv
    rw [← Char.ext (UInt32.toNat_inj.1 hv)]
    exact hc
  · intro h
    refine ⟨a, h, ?_⟩
    rw [String.utf8EncodeChar, if_pos (by show a.val.toNat ≤ 127; omega)]
    exact List.mem_singleton_self _

theorem newline_mem_utf8 {s : String} : newline ∈ utf8 s ↔ '\n' ∈ s.toList :=
  ascii_mem_utf8 (a := '\n') (by decide)

theorem length_utf8_le (s : String) : (utf8 s).length ≤ 4 * s.toList.length := by
  rw [utf8]
  induction s.toList with
  | nil => simp
  | cons c cs ih =>
    have := c.utf8Size_le_four
    rw [List.flatMap_cons, List.length_append, String.length_utf8EncodeChar, List.length_cons]
    omega

theorem length_le_length_utf8 (s : String) : s.toList.length ≤ (utf8 s).length := by
  rw [utf8]
  induction s.toList with
  | nil => simp
  | cons c cs ih =>
    have := c.utf8Size_pos
    rw [List.flatMap_cons, List.length_append, String.length_utf8EncodeChar, List.length_cons]
    omega

/-! ### Whitespace -/

/-- The Unicode `White_Space` characters (`char::is_whitespace`). -/
def isWhitespace (c : Char) : Bool :=
  (0x9 ≤ c.val && c.val ≤ 0xD) || c.val == 0x20 || c.val == 0x85 || c.val == 0xA0 ||
    c.val == 0x1680 || (0x2000 ≤ c.val && c.val ≤ 0x200A) || c.val == 0x2028 || c.val == 0x2029 ||
    c.val == 0x202F || c.val == 0x205F || c.val == 0x3000

/-- `str::trim`. -/
def trim (s : String) : String :=
  String.ofList (((s.toList.dropWhile isWhitespace).reverse.dropWhile isWhitespace).reverse)

/-- `s.trim().is_empty()`. -/
def isBlank (s : String) : Bool := (trim s).toList.isEmpty

theorem not_mem_of_all {p : Char → Bool} {cs : List Char} {c : Char} (h : cs.all p = true) (hc : p c = false) :
    c ∉ cs := by
  intro hmem
  rw [List.all_eq_true.1 h c hmem] at hc
  cases hc

theorem isBlank_eq_all (s : String) : isBlank s = s.toList.all isWhitespace := by
  have mem_dropWhile : ∀ {c : Char}, c ∈ s.toList.dropWhile isWhitespace → c ∈ s.toList :=
    fun h => (List.dropWhile_suffix _).mem h
  rw [Bool.eq_iff_iff]
  simp only [isBlank, trim, String.toList_ofList, List.isEmpty_iff, List.reverse_eq_nil_iff,
    List.dropWhile_eq_nil_iff, List.mem_reverse, List.all_eq_true]
  constructor
  · intro h c hc
    by_contra hw
    have hne : s.toList.dropWhile isWhitespace ≠ [] := fun he =>
      hw (List.dropWhile_eq_nil_iff.1 he c hc)
    have hhd := List.head_dropWhile_not isWhitespace hne
    rw [h _ (List.head_mem hne)] at hhd
    cases hhd
  · exact fun h c hc => h c (mem_dropWhile hc)

/-! ### Lines -/

/-- The lines of a byte file, each with whether a newline ended it. -/
def rawLines : Bytes → List (Bytes × Bool)
  | [] => []
  | b :: bs =>
    if b = newline then ([], true) :: rawLines bs
    else match rawLines bs with
      | [] => [([b], false)]
      | (l, ended) :: rest => (b :: l, ended) :: rest

/-- `BufRead::lines` on one raw line: decode it and drop the `'\r'` that stood before the newline. -/
def lineText : Bytes × Bool → Option String
  | (l, ended) => (fromUtf8 l).map fun s =>
      if ended && s.toList.getLast? == some '\r' then String.ofList s.toList.dropLast else s

/-- The lines a `BufRead::lines` loop sees; `none` is the error for a line that is not UTF-8. -/
def readLines (bs : Bytes) : List (Option String) := (rawLines bs).map lineText

@[simp] theorem rawLines_nil : rawLines [] = [] := rfl

theorem rawLines_line {l : Bytes} (hl : newline ∉ l) (bs : Bytes) :
    rawLines (l ++ newline :: bs) = (l, true) :: rawLines bs := by
  induction l with
  | nil => simp [rawLines]
  | cons b l ih =>
    obtain ⟨hb, hl⟩ := not_or.1 (mt List.mem_cons.2 hl)
    simp only [List.cons_append, rawLines, ih hl, if_neg (Ne.symm hb)]

theorem rawLines_last {l : Bytes} (hne : l ≠ []) (hl : newline ∉ l) :
    rawLines l = [(l, false)] := by
  induction l with
  | nil => exact absurd rfl hne
  | cons b l ih =>
    obtain ⟨hb, hl⟩ := not_or.1 (mt List.mem_cons.2 hl)
    cases l with
    | nil => simp [rawLines, Ne.symm hb]
    | cons c l => simp only [rawLines, if_neg (Ne.symm hb)] at ih ⊢; rw [ih (by simp) hl]

/-- A file that ends in a newline (or is empty): every line of it is complete. -/
def Ended (bs : Bytes) : Prop := ∀ l ∈ rawLines bs, l.2 = true

@[simp] theorem ended_nil : Ended [] := by simp [Ended]

theorem rawLines_eq_nil {bs : Bytes} : rawLines bs = [] ↔ bs = [] := by
  constructor
  · intro h
    cases bs with
    | nil => rfl
    | cons b bs =>
      simp only [rawLines] at h
      split at h
      · cases h
      · split at h <;> cases h
  · rintro rfl; rfl

theorem rawLines_append {bs : Bytes} (h : Ended bs) (cs : Bytes) :
    rawLines (bs ++ cs) = rawLines bs ++ rawLines cs := by
  induction bs with
  | nil => rfl
  | cons b bs ih =>
    by_cases hb : b = newline
    · have h' : Ended bs := fun l hl => h l (by simp [rawLines, hb, hl])
      simp only [List.cons_append, rawLines, hb, if_true, ih h']
    · cases hr : rawLines bs with
      | nil =>
        have := h ([b], false) (by simp [rawLines, hb, hr])
        cases this
      | cons p rest =>
        have h' : Ended bs := fun l hl => by
          rw [hr] at hl
          rcases List.mem_cons.1 hl with rfl | hl
          · exact h (b :: l.1, l.2) (by simp [rawLines, hb, hr])
          · exact h l (by simp [rawLines, hb, hr, hl])
        simp only [List.cons_append, rawLines, if_neg hb, ih h', hr]

theorem ended_append_line {bs l : Bytes} (h : Ended bs) (hl : newline ∉ l) :
    Ended (bs ++ (l ++ [newline])) := by
  intro p hp
  rw [rawLines_append h, rawLines_line hl, List.mem_append] at hp
  rcases hp with hp | hp
  · exact h p hp
  · simp at hp; rw [hp]

/-- A file is complete lines and what follows the last newline. -/
theorem exists_last_line (bs : Bytes) : ∃ as l, bs = as ++ l ∧ Ended as ∧ newline ∉ l := by
  induction bs with
  | nil => exact ⟨[], [], rfl, ended_nil, by simp⟩
  | cons b bs ih =>
    obtain ⟨as, l, rfl, has, hl⟩ := ih
    by_cases hb : b = newline
    · refine ⟨newline :: as, l, by rw [hb]; rfl, ?_, hl⟩
      intro p hp
      rw [rawLines, if_pos rfl, List.mem_cons] at hp
      rcases hp with rfl | hp
      · rfl
      · exact has p hp
    rcases hr : rawLines as with _ | ⟨p, rest⟩
    · rw [rawLines_eq_nil.1 hr]
      refine ⟨[], b :: l, rfl, ended_nil, ?_⟩
      intro hm
      rcases List.mem_cons.1 hm with hm | hm
      · exact hb hm.symm
      · exact hl hm
    · refine ⟨b :: as, l, rfl, ?_, hl⟩
      intro q hq
      rw [rawLines, if_neg hb, hr, List.mem_cons] at hq
      rcases hq with rfl | hq
      · exact has p (by rw [hr]; simp)
      · exact has q (by rw [hr]; simp [hq])

/-- The file up to the end of a complete line. -/
theorem rawLines_split {bs : Bytes} {ls rest : List (Bytes × Bool)} {l : Bytes}
    (h : rawLines bs = ls ++ (l, true) :: rest) :
    ∃ as x, bs = as ++ x ∧ rawLines as = ls ++ [(l, true)] ∧ Ended as := by
  induction bs generalizing ls l with
  | nil => simp at h
  | cons b bs ih =>
    by_cases hb : b = newline
    · rw [rawLines, if_pos hb] at h
      rcases ls with _ | ⟨p, ls⟩
      · rw [List.nil_append, List.cons.injEq, Prod.mk.injEq] at h
        refine ⟨[newline], bs, by rw [hb]; rfl, by rw [← h.1.1]; rfl, ?_⟩
        exact ended_append_line ended_nil (l := []) (by simp)
      · rw [List.cons_append, List.cons.injEq] at h
        obtain ⟨as, x, hbs, hlines, has⟩ := ih h.2
        refine ⟨newline :: as, x, by rw [hb, hbs]; rfl, ?_, ?_⟩
        · rw [rawLines, if_pos rfl, hlines, h.1]; rfl
        · intro q hq
          rw [rawLines, if_pos rfl, List.mem_cons] at hq
          rcases hq with rfl | hq
          · rfl
          · exact has q hq
    rw [rawLines, if_neg hb] at h
    rcases hr : rawLines bs with _ | ⟨⟨m, ended⟩, more⟩
    · rw [hr] at h
      dsimp only at h
      rcases ls with _ | ⟨p, ls⟩ <;> simp at h
    rw [hr] at h
    dsimp only at h
    -- the first line of the rest goes on at `b`
    have hcons : ∀ {as : Bytes} {tail : List (Bytes × Bool)}, rawLines as = (m, ended) :: tail → Ended as →
        rawLines (b :: as) = (b :: m, ended) :: tail ∧ Ended (b :: as) := by
      intro as tail hlines has
      have hb' : rawLines (b :: as) = (b :: m, ended) :: tail := by
        rw [rawLines, if_neg hb, hlines]
      refine ⟨hb', ?_⟩
      intro q hq
      rw [hb', List.mem_cons] at hq
      rcases hq with rfl | hq
      · exact has (m, ended) (by rw [hlines]; simp)
      · exact has q (by rw [hlines]; simp [hq])
    rcases ls with _ | ⟨p, ls⟩
    · rw [List.nil_append, List.cons.injEq, Prod.mk.injEq] at h
      obtain ⟨⟨rfl, rfl⟩, rfl⟩ := h
      have hrest : rawLines bs = [] ++ (m, true) :: more := hr
      obtain ⟨as, x, rfl, hlines, has⟩ := ih hrest
      obtain ⟨hb', hend⟩ := hcons hlines has
      exact ⟨b :: as, x, rfl, hb', hend⟩
    · rw [List.cons_append, List.cons.injEq] at h
      obtain ⟨rfl, rfl⟩ := h
      have hrest : rawLines bs = ((m, ended) :: ls) ++ (l, true) :: rest := hr
      obtain ⟨as, x, rfl, hlines, has⟩ := ih hrest
      obtain ⟨hb', hend⟩ := hcons hlines has
      exact ⟨b :: as, x, rfl, hb', hend⟩

/-- Every line takes at least one byte of the file. -/
theorem length_rawLines_le (bs : Bytes) : (rawLines bs).length ≤ bs.length := by
  induction bs with
  | nil => simp
  | cons b bs ih =>
    simp only [rawLines]
    split
    · simpa using ih
    · split
      · simp
      · rename_i h; rw [h] at ih; simp at ih ⊢; omega

theorem readLines_append {bs : Bytes} (h : Ended bs) (cs : Bytes) :
    readLines (bs ++ cs) = readLines bs ++ readLines cs := by
  rw [readLines, rawLines_append h, List.map_append]; rfl

/-- A terminated line of text that holds no newline and does not end in `'\r'` reads back as itself. -/
theorem readLines_line {s : String} (hs : '\n' ∉ s.toList) (hr : s.toList.getLast? ≠ some '\r') :
    readLines (utf8 s ++ [newline]) = [some s] := by
  rw [readLines, rawLines_line (mt newline_mem_utf8.1 hs)]
  simp [lineText, hr]

/-! ### Fields between newlines -/

def joinLines : List Bytes → Bytes
  | [] => []
  | [l] => l
  | l :: ls => l ++ newline :: joinLines ls

theorem joinLines_cons {l : Bytes} {ls : List Bytes} (h : ls ≠ []) :
    joinLines (l :: ls) = l ++ newline :: joinLines ls := by
  cases ls with
  | nil => exact absurd rfl h
  | cons _ _ => rfl

theorem count_joinLines {l : Bytes} {ls : List Bytes} :
    (joinLines (l :: ls)).count newline = ls.length + (l :: ls).flatten.count newline := by
  induction ls generalizing l with
  | nil => simp [joinLines]
  | cons m ls ih =>
    rw [joinLines_cons (by simp), List.count_append, List.count_cons_self, ih,
      List.flatten_cons (l := l), List.count_append, List.length_cons]
    omega

theorem append_newline_inj {a b x y : Bytes} (ha : newline ∉ a) (hb : newline ∉ b)
    (h : a ++ newline :: x = b ++ newline :: y) : a = b ∧ x = y := by
  have hx := rawLines_line ha x
  rw [h, rawLines_line hb, List.cons.injEq, Prod.mk.injEq] at hx
  obtain rfl := hx.1.1
  exact ⟨rfl, (List.cons.inj (List.append_cancel_left h)).2⟩

theorem joinLines_inj {ks ls : List Bytes} (hlen : ks.length = ls.length)
    (hk : ∀ k ∈ ks, newline ∉ k) (hl : ∀ l ∈ ls, newline ∉ l) (h : joinLines ks = joinLines ls) :
    ks = ls := by
  induction ks generalizing ls with
  | nil => exact (List.length_eq_zero_iff.1 hlen.symm).symm
  | cons k ks ih =>
    rcases ls with _ | ⟨l, ls⟩
    · simp at hlen
    rw [List.length_cons, List.length_cons, Nat.add_right_cancel_iff] at hlen
    by_cases hks : ks = []
    · subst hks
      obtain rfl := List.length_eq_zero_iff.1 hlen.symm
      rw [show k = l from h]
    · have hls : ls ≠ [] := fun he => hks (List.length_eq_zero_iff.1 (by rw [hlen, he]; rfl))
      rw [joinLines_cons hks, joinLines_cons hls] at h
      obtain ⟨rfl, htail⟩ := append_newline_inj (hk k (by simp)) (hl l (by simp)) h
      rw [ih hlen (fun m hm => hk m (by simp [hm])) (fun m hm => hl m (by simp [hm])) htail]

/-- Fields without a newline stay apart, whatever the fields on the other side are. -/
theorem joinLines_injective {ks ls : List Bytes} (hlen : ks.length = ls.length)
    (hl : ∀ l ∈ ls, newline ∉ l) (h : joinLines ks = joinLines ls) : ks = ls := by
  refine joinLines_inj hlen ?_ hl h
  rcases ks with _ | ⟨k, ks⟩
  · simp
  rcases ls with _ | ⟨l, ls⟩
  · simp at hlen
  -- the right side has no newline but the separators, so the left side has none either
  have hcount := congrArg (List.count newline) h
  have hflat : newline ∉ (l :: ls).flatten := fun hm => by
    obtain ⟨m, hm, hn⟩ := List.mem_flatten.1 hm
    exact hl m hm hn
  rw [count_joinLines, count_joinLines, List.count_eq_zero.2 hflat] at hcount
  rw [List.length_cons, List.length_cons] at hlen
  intro m hm hn
  exact List.count_eq_zero.1 (by omega) (List.mem_flatten.2 ⟨m, hm, hn⟩)

end Text
