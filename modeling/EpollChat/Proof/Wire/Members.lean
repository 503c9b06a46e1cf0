import EpollChat.Wire.Chat

/-!
# What the extractors read off an object of string members

On the texts the server writes and decodes, `{"k":"v","k":"v",…}` with no quote inside a
key or a value, the two extractors are lookups in the member list. They are *not* the
lookup one would expect: a member whose **value** is the key sought stops the fast
extractor (`fastLookup`) and makes the slow one answer with the *next* member's value
(`liteLookup`). `extractJsonStringFast_objectText` and `extractJsonValue_objectText` say so
once, by induction on the members, and nothing downstream scans a text again.
-/

namespace EpollChat

open Lib

/-! ## 1. The lookups -/

/-- What `extractJsonValue` makes of a value: leading blanks go, and everything from the
    first comma or closing brace on. -/
def trimValue (v : Bytes) : Bytes :=
  (v.dropWhile (· == space)).takeWhile fun b => !(b == comma || b == closeBrace)

/-- The value of the first member, if there is one. -/
def firstValue : List (Bytes × Bytes) → Bytes
  | [] => []
  | m :: _ => trimValue m.2

def liteLookup (key : Bytes) : List (Bytes × Bytes) → Bytes
  | [] => []
  | (k, v) :: ms =>
      if key = k then trimValue v else if key = v then firstValue ms else liteLookup key ms

def fastLookup (key : Bytes) : List (Bytes × Bytes) → Option Bytes
  | [] => none
  | (k, v) :: ms => if key = k then some v else if key = v then none else fastLookup key ms

/-- A key name: no quote, colon or comma in it, and not empty. -/
def IsKey (key : Bytes) : Prop := key ≠ [] ∧ quote ∉ key ∧ colon ∉ key ∧ comma ∉ key

instance (key : Bytes) : Decidable (IsKey key) := inferInstanceAs (Decidable (_ ∧ _))

/-- A string that can stand between quotes: no double quote, no backslash at its end. -/
structure Quotable (v : Bytes) : Prop where
  no_quote : quote ∉ v
  last : v.getLast? ≠ some backslash

/-- Members the extractors can be trusted on: keys are key names, values hold no quote
    and do not end in a backslash. -/
def Clean (ms : List (Bytes × Bytes)) : Prop :=
  ∀ m ∈ ms, IsKey m.1 ∧ quote ∉ m.2 ∧ m.2.getLast? ≠ some backslash

theorem Clean.head {k v : Bytes} {ms : List (Bytes × Bytes)} (h : Clean ((k, v) :: ms)) :
    IsKey k ∧ quote ∉ v ∧ v.getLast? ≠ some backslash := h (k, v) List.mem_cons_self

theorem Clean.tail {m : Bytes × Bytes} {ms : List (Bytes × Bytes)} (h : Clean (m :: ms)) :
    Clean ms := fun m' hm => h m' (List.mem_cons_of_mem _ hm)

theorem Clean.append {ms ms' : List (Bytes × Bytes)} (h : Clean ms) (h' : Clean ms') :
    Clean (ms ++ ms') := by
  intro m hm
  rcases List.mem_append.mp hm with hm | hm
  · exact h m hm
  · exact h' m hm

/-! ## 2. Searching for the quoted key -/

theorem seek_quoted_eq_none {key w : Bytes} (h : quote ∉ w) : seek (quoted key) w = none :=
  seek_eq_none_of_not_mem h

/-- No key starts where a separator stands. -/
theorem not_key_at_comma {key r : Bytes} (hk : IsKey key) : ¬ key ++ [quote] <+: comma :: r := by
  intro hp
  cases key with
  | nil => exact hk.1 rfl
  | cons b key =>
    have hb := (List.cons_prefix_cons.mp hp).1
    exact hk.2.2.2 (by rw [hb]; exact List.mem_cons_self)

theorem membersFrom_comma_ne {key : Bytes} (hk : IsKey key) {ms : List (Bytes × Bytes)} :
    ¬ key ++ [quote] <+: membersFrom comma ms := by
  cases ms with
  | nil => exact not_delimited_within (by decide)
  | cons m ms => exact not_key_at_comma hk

/-- One member of the search: its key, its value, or go on behind it. -/
theorem seek_member {key k v r : Bytes} {c : UInt8} (hk : IsKey key) (hc : c ≠ quote) (hk' : quote ∉ k)
    (hv : quote ∉ v) (hr : ¬ key ++ [quote] <+: r) :
    seek (quoted key) (c :: (memberText k v ++ r))
      = if key = k then some (memberText k v ++ r)
        else if key = v then some (quoted v ++ r)
        else seek (quoted key) r := by
  have hcolon : key ≠ [colon] := fun h => hk.2.2.1 (by rw [h]; simp)
  have h₁ : c :: (memberText k v ++ r)
      = [c] ++ quote :: (k ++ quote :: ([colon] ++ quote :: (v ++ quote :: r))) := by
    simp [memberText, quoted]
  rw [h₁, quoted, seek_delim (by simpa using hc.symm)]
  by_cases hkk : key = k
  · rw [if_pos ((delimited_prefix_iff hk.2.1 hk').mpr hkk), if_pos hkk]
    simp [memberText, quoted]
  · rw [if_neg (fun h => hkk ((delimited_prefix_iff hk.2.1 hk').mp h)), if_neg hkk,
      seek_delim hk',
      if_neg (fun h => hcolon ((delimited_prefix_iff hk.2.1 (by decide)).mp h)),
      seek_delim (w := [colon]) (by decide)]
    by_cases hkv : key = v
    · rw [if_pos ((delimited_prefix_iff hk.2.1 hv).mpr hkv), if_pos hkv]
      simp [quoted]
    · rw [if_neg (fun h => hkv ((delimited_prefix_iff hk.2.1 hv).mp h)), if_neg hkv,
        seek_delim hv, if_neg hr]

theorem seek_membersFrom {key k v : Bytes} {c : UInt8} {ms : List (Bytes × Bytes)}
    (hk : IsKey key) (hc : c ≠ quote) (hk' : quote ∉ k) (hv : quote ∉ v) :
    seek (quoted key) (membersFrom c ((k, v) :: ms))
      = if key = k then some (memberText k v ++ membersFrom comma ms)
        else if key = v then some (quoted v ++ membersFrom comma ms)
        else seek (quoted key) (membersFrom comma ms) :=
  seek_member hk hc hk' hv (membersFrom_comma_ne hk)

/-! ## 3. The slow extractor -/

theorem dropWhile_space_quote {v r : Bytes} {c : UInt8} (hv : quote ∉ v) (hc : c ≠ space)
    (hq : c ≠ quote) :
    ((v ++ quote :: c :: r).dropWhile fun b => b == space || b == quote)
      = if v.dropWhile (· == space) = [] then c :: r
        else v.dropWhile (· == space) ++ quote :: c :: r := by
  induction v with
  | nil => simp [hc, hq]
  | cons b bs ih =>
    simp only [List.mem_cons, not_or] at hv
    by_cases hb : b = space
    · subst hb
      simpa using ih hv.2
    · have hbq : b ≠ quote := fun h => hv.1 h.symm
      simp [hb, hbq]

theorem takeWhile_value {v r : Bytes} (hv : quote ∉ v) :
    ((v ++ quote :: r).takeWhile fun b => !endsValue b)
      = v.takeWhile fun b => !(b == comma || b == closeBrace) := by
  induction v with
  | nil => simp [endsValue]
  | cons b bs ih =>
    simp only [List.mem_cons, not_or] at hv
    have hb : b ≠ quote := fun h => hv.1 h.symm
    rw [List.cons_append, List.takeWhile_cons, List.takeWhile_cons, ih hv.2]
    simp [endsValue, hb]

/-- Behind the colon of a member: the trimmed value. -/
theorem valueAfterColon_member {v r : Bytes} {c : UInt8} (hv : quote ∉ v)
    (hc : c = comma ∨ c = closeBrace) : valueAfterColon (quoted v ++ c :: r) = trimValue v := by
  have hcs : c ≠ space := by rcases hc with rfl | rfl <;> decide
  have hcq : c ≠ quote := by rcases hc with rfl | rfl <;> decide
  have hce : endsValue c = true := by rcases hc with rfl | rfl <;> decide
  unfold valueAfterColon trimValue
  have h₁ : quoted v ++ c :: r = quote :: (v ++ quote :: c :: r) := by simp [quoted]
  rw [h₁, List.dropWhile_cons_of_pos (by simp), dropWhile_space_quote hv hcs hcq]
  by_cases hd : v.dropWhile (· == space) = []
  · rw [if_pos hd, hd]
    simp [hce]
  · rw [if_neg hd]
    exact takeWhile_value fun hm => hv ((List.dropWhile_sublist _).subset hm)

theorem membersFrom_comma_cons (ms : List (Bytes × Bytes)) :
    ∃ c r, membersFrom comma ms = c :: r ∧ (c = comma ∨ c = closeBrace) := by
  cases ms with
  | nil => exact ⟨closeBrace, [], rfl, Or.inr rfl⟩
  | cons m ms => exact ⟨comma, _, rfl, Or.inl rfl⟩

theorem seek_colon_member {k v r : Bytes} (hk : colon ∉ k) :
    seek [colon] (memberText k v ++ r) = some (colon :: (quoted v ++ r)) := by
  have h₁ : memberText k v ++ r = quoted k ++ colon :: (quoted v ++ r) := by
    simp [memberText]
  have h₂ : colon ∉ quoted k := by
    simp only [quoted, List.mem_cons, List.mem_append, List.not_mem_nil, or_false, not_or]
    exact ⟨by decide, hk, by decide⟩
  rw [h₁, seek_singleton h₂]

/-- The key was found as a *value*: the next colon is the next member's. -/
theorem seek_colon_value {v : Bytes} (hv : colon ∉ v) {ms : List (Bytes × Bytes)}
    (hms : Clean ms) :
    (match seek [colon] (quoted v ++ membersFrom comma ms) with
      | none => []
      | some r' => valueAfterColon r'.tail) = firstValue ms := by
  have h₂ : colon ∉ quoted v := by
    simp only [quoted, List.mem_cons, List.mem_append, List.not_mem_nil, or_false, not_or]
    exact ⟨by decide, hv, by decide⟩
  cases ms with
  | nil =>
    rw [seek_append_of_not_mem h₂]
    rfl
  | cons m ms =>
    obtain ⟨k', v'⟩ := m
    obtain ⟨c, r, hr, hc⟩ := membersFrom_comma_cons ms
    have h₃ : quoted v ++ membersFrom comma ((k', v') :: ms)
        = (quoted v ++ [comma]) ++ (memberText k' v' ++ membersFrom comma ms) := by
      simp [membersFrom]
    have h₄ : colon ∉ quoted v ++ [comma] := by
      simp only [List.mem_append, not_or]
      exact ⟨h₂, by decide⟩
    rw [h₃, seek_append_of_not_mem h₄, seek_colon_member hms.head.1.2.2.1]
    simp only [List.tail_cons]
    rw [hr, valueAfterColon_member hms.head.2.1 hc]
    rfl

theorem extractJsonValue_membersFrom {key : Bytes} (hk : IsKey key) :
    ∀ {ms : List (Bytes × Bytes)} {c : UInt8}, c ≠ quote → Clean ms →
      extractJsonValue (membersFrom c ms) key = liteLookup key ms := by
  intro ms
  induction ms with
  | nil =>
    intro c hc _
    rw [extractJsonValue, membersFrom, seek_quoted_eq_none (by decide)]
    rfl
  | cons m ms ih =>
    intro c hc hms
    obtain ⟨k, v⟩ := m
    obtain ⟨c', r, hr, hc'⟩ := membersFrom_comma_cons ms
    rw [extractJsonValue, seek_membersFrom hk hc hms.head.1.2.1 hms.head.2.1, liteLookup]
    by_cases hkk : key = k
    · rw [if_pos hkk, if_pos hkk]
      simp only [seek_colon_member hms.head.1.2.2.1, List.tail_cons]
      rw [hr, valueAfterColon_member hms.head.2.1 hc']
    · rw [if_neg hkk, if_neg hkk]
      by_cases hkv : key = v
      · rw [if_pos hkv, if_pos hkv]
        exact seek_colon_value (hkv ▸ hk.2.2.1) hms.tail
      · rw [if_neg hkv, if_neg hkv, ← ih (c := comma) (by decide) hms.tail]
        rfl

/-- **`extractJsonValue` on an object is `liteLookup`.** -/
theorem extractJsonValue_objectText {key : Bytes} (hk : IsKey key) {ms : List (Bytes × Bytes)}
    (hms : Clean ms) : extractJsonValue (objectText ms) key = liteLookup key ms := by
  cases ms with
  | nil =>
    rw [extractJsonValue, objectText, seek_quoted_eq_none (by decide)]
    rfl
  | cons m ms => exact extractJsonValue_membersFrom hk (by decide) hms

/-! ## 4. The fast extractor -/

theorem seek_eq_none_of_length {needle : Bytes} :
    ∀ {hay : Bytes}, hay.length < needle.length → seek needle hay = none := by
  intro hay
  induction hay with
  | nil =>
    intro h
    rw [seek, if_neg (by rintro rfl; simp at h)]
  | cons c cs ih =>
    intro h
    rw [seek, if_neg (fun hp => absurd hp.length_le (by omega)),
      ih (by simp only [List.length_cons] at h; omega)]

/-- The fast extractor looks at the same first occurrence. -/
theorem findQuotedKey_eq (key : Bytes) : ∀ hay : Bytes,
    findQuotedKey key hay = (seek (quoted key) hay).map (·.drop (key.length + 2)) := by
  intro hay
  induction hay with
  | nil => simp [findQuotedKey, seek, quoted]
  | cons c cs ih =>
    rw [findQuotedKey]
    by_cases hlen : cs.length + 1 < key.length + 2
    · rw [if_pos hlen, seek_eq_none_of_length (by simpa [quoted] using hlen)]
      rfl
    · rw [if_neg hlen, seek, ih, quoted]
      by_cases hc : c = quote
      · subst hc
        rw [if_neg (by simp)]
        by_cases hp : key ++ [quote] <+: cs
        · rw [if_pos hp, if_pos (List.cons_prefix_cons.mpr ⟨rfl, hp⟩)]
          simp
        · rw [if_neg hp, if_neg (fun h => hp (List.cons_prefix_cons.mp h).2)]
      · rw [if_pos hc, if_neg (fun h => hc (List.cons_prefix_cons.mp h).1.symm)]

theorem scanString_value : ∀ {v : Bytes} {prev : Option UInt8} (r : Bytes), quote ∉ v →
    (v = [] → prev ≠ some backslash) → v.getLast? ≠ some backslash →
    scanString prev (v ++ quote :: r) = some v := by
  intro v
  induction v with
  | nil =>
    intro prev r _ hprev _
    rw [List.nil_append, scanString, if_pos ⟨rfl, hprev rfl⟩]
  | cons b bs ih =>
    intro prev r hv _ hlast
    simp only [List.mem_cons, not_or] at hv
    have hb : ¬ (b = quote ∧ prev ≠ some backslash) := fun h => hv.1 h.1.symm
    rw [List.cons_append, scanString, if_neg hb, ih r hv.2 ?_ ?_]
    · rfl
    · rintro rfl hbs
      exact hlast (by simpa using hbs)
    · intro hbs
      cases bs with
      | nil => simp at hbs
      | cons b' bs' => exact hlast (by simpa using hbs)

theorem stringAfterKey_member {v : Bytes} (r : Bytes) (hv : quote ∉ v)
    (hlast : v.getLast? ≠ some backslash) :
    stringAfterKey (colon :: (quoted v ++ r)) = some v := by
  have h₁ : (colon :: (quoted v ++ r)).dropWhile isBlank = colon :: (quoted v ++ r) :=
    List.dropWhile_cons_of_neg (by decide)
  have h₂ : (quoted v ++ r).dropWhile isBlank = quote :: (v ++ quote :: r) := by
    rw [quoted, List.cons_append, List.dropWhile_cons_of_neg (by decide)]
    simp
  simp only [stringAfterKey, h₁, h₂, ne_eq, not_true_eq_false, if_false]
  exact scanString_value r hv (fun _ => by simp) hlast

theorem stringAfterKey_value {c : UInt8} (r : Bytes) (hc : c = comma ∨ c = closeBrace) :
    stringAfterKey (c :: r) = none := by
  have hb : isBlank c = false := by rcases hc with rfl | rfl <;> decide
  have hcol : c ≠ colon := by rcases hc with rfl | rfl <;> decide
  have h₁ : (c :: r).dropWhile isBlank = c :: r := List.dropWhile_cons_of_neg (by simp [hb])
  simp only [stringAfterKey, h₁]
  rw [if_pos hcol]

theorem length_quoted (key : Bytes) : (quoted key).length = key.length + 2 := by
  simp [quoted]

theorem extractJsonStringFast_eq {key : Bytes} (hk : IsKey key) (json : Bytes) :
    extractJsonStringFast json key
      = match seek (quoted key) json with
        | none => none
        | some r => stringAfterKey (r.drop (key.length + 2)) := by
  have hk0 : key.length ≠ 0 := fun h => hk.1 (List.length_eq_zero_iff.mp h)
  rw [extractJsonStringFast, findQuotedKey_eq]
  by_cases hlen : json.length < key.length + 2
  · have hquoted : json.length < (quoted key).length := by
      rw [length_quoted]
      exact hlen
    rw [if_pos (Or.inr hlen), seek_eq_none_of_length hquoted]
  · rw [if_neg (by simp [hk0, hlen])]
    cases seek (quoted key) json with
    | none => rfl
    | some r => rfl

theorem extractJsonStringFast_membersFrom {key : Bytes} (hk : IsKey key) :
    ∀ {ms : List (Bytes × Bytes)} {c : UInt8}, c ≠ quote → Clean ms →
      extractJsonStringFast (membersFrom c ms) key = fastLookup key ms := by
  intro ms
  induction ms with
  | nil =>
    intro c _ _
    rw [extractJsonStringFast_eq hk, membersFrom, seek_quoted_eq_none (by decide)]
    rfl
  | cons m ms ih =>
    intro c hc hms
    obtain ⟨k, v⟩ := m
    obtain ⟨c', r, hr, hc'⟩ := membersFrom_comma_cons ms
    rw [extractJsonStringFast_eq hk, seek_membersFrom hk hc hms.head.1.2.1 hms.head.2.1, fastLookup]
    by_cases hkk : key = k
    · subst hkk
      have h₁ : (memberText key v ++ membersFrom comma ms).drop (key.length + 2)
          = colon :: (quoted v ++ membersFrom comma ms) := by
        simp [memberText, quoted]
      simp only [if_true, h₁]
      exact stringAfterKey_member _ hms.head.2.1 hms.head.2.2
    · rw [if_neg hkk, if_neg hkk]
      by_cases hkv : key = v
      · subst hkv
        have h₁ : (quoted key ++ membersFrom comma ms).drop (key.length + 2)
            = membersFrom comma ms := by
          simp [quoted]
        simp only [if_true, h₁]
        rw [hr]
        exact stringAfterKey_value r hc'
      · rw [if_neg hkv, if_neg hkv, ← ih (c := comma) (by decide) hms.tail,
          extractJsonStringFast_eq hk]

/-- **`extractJsonStringFast` on an object is `fastLookup`.** -/
theorem extractJsonStringFast_objectText {key : Bytes} (hk : IsKey key)
    {ms : List (Bytes × Bytes)} (hms : Clean ms) :
    extractJsonStringFast (objectText ms) key = fastLookup key ms := by
  cases ms with
  | nil =>
    rw [extractJsonStringFast_eq hk, objectText, seek_quoted_eq_none (by decide)]
    rfl
  | cons m ms => exact extractJsonStringFast_membersFrom hk (by decide) hms

/-- What the encoder's `get` finds: the member's value, or, if a value before it spells the key,
    what the slow extractor makes of the value behind that one. -/
def getLookup (key : Bytes) : List (Bytes × Bytes) → Bytes
  | [] => []
  | (k, v) :: ms => if key = k then v else if key = v then firstValue ms else getLookup key ms

theorem getLookup_eq (key : Bytes) : ∀ ms : List (Bytes × Bytes),
    (if (fastLookup key ms).getD [] = [] then liteLookup key ms else (fastLookup key ms).getD [])
      = getLookup key ms := by
  intro ms
  induction ms with
  | nil => rfl
  | cons m ms ih =>
    obtain ⟨k, v⟩ := m
    simp only [fastLookup, liteLookup, getLookup]
    split
    · rw [Option.getD_some]
      split
      · next hv => rw [hv]; rfl
      · rfl
    · split
      · rw [Option.getD_none, if_pos rfl]
      · exact ih

/-- **The encoder's `get` on an object.** -/
theorem getField_objectText {key : Bytes} (hk : IsKey key) {ms : List (Bytes × Bytes)}
    (hms : Clean ms) : getField (objectText ms) key = getLookup key ms := by
  simp only [getField, extractJsonValueLite, extractJsonStringFast_objectText hk hms,
    extractJsonValue_objectText hk hms]
  exact getLookup_eq key ms

/-! ## 5. Numbers as values -/

/-- The value of a string of digits. -/
def decimalValue (s : Bytes) : Nat := s.foldl (fun v ch => v * 10 + (ch.toNat - 48)) 0

theorem foldl_digits (cs : List Char) (h : ∀ c ∈ cs, c.isDigit = true) : ∀ v : Nat,
    (cs.map fun c => UInt8.ofNat c.toNat).foldl (fun v ch => v * 10 + (ch.toNat - 48)) v
      = Nat.ofDigitChars 10 cs v := by
  induction cs with
  | nil => intro v; rfl
  | cons c cs ih =>
    intro v
    have hc := h c List.mem_cons_self
    simp only [Char.isDigit, Bool.and_eq_true, decide_eq_true_eq] at hc
    have h₁ : 48 ≤ c.toNat := UInt32.le_iff_toNat_le.mp hc.1
    have h₂ : c.toNat ≤ 57 := UInt32.le_iff_toNat_le.mp hc.2
    rw [Nat.ofDigitChars_cons, ← ih (fun c' hc' => h c' (List.mem_cons_of_mem _ hc')),
      List.map_cons, List.foldl_cons]
    congr 1
    rw [UInt8.toNat_ofNat', show '0'.toNat = 48 from rfl]
    omega

theorem decimalValue_toDecimal (n : Nat) : decimalValue (toDecimal n) = n := by
  have h := foldl_digits (Nat.toDigits 10 n)
    (fun c hc => Nat.isDigit_of_mem_toDigits (by decide) (by decide) hc) 0
  rw [Nat.ofDigitChars_ten_toDigits] at h
  exact h

theorem toDecimal_inj {n k : Nat} (h : toDecimal n = toDecimal k) : n = k := by
  rw [← decimalValue_toDecimal n, h, decimalValue_toDecimal]

theorem stoull_toDecimal {n : Nat} (h : n < 2 ^ 64) : stoull (toDecimal n) = some n := by
  show (if decimalValue (toDecimal n) < 2 ^ 64 then some (decimalValue (toDecimal n)) else none) = some n
  rw [decimalValue_toDecimal, if_pos h]

/-- Reducing at every digit is reducing once. -/
theorem foldl_digits_mod (s : Bytes) : ∀ v : Nat,
    s.foldl (fun v ch => (v * 10 + (ch.toNat - 48)) % 2 ^ 64) (v % 2 ^ 64)
      = s.foldl (fun v ch => v * 10 + (ch.toNat - 48)) v % 2 ^ 64 := by
  induction s with
  | nil => exact fun v => rfl
  | cons ch s ih =>
    intro v
    rw [List.foldl_cons, List.foldl_cons, ← ih]
    congr 1
    omega

/-- A string of digits is read modulo `2 ^ 64`. -/
theorem parseUint64Safe_digits {s : Bytes} (h : s.all isDigit = true) :
    parseUint64Safe s = decimalValue s % 2 ^ 64 := by
  rw [parseUint64Safe, if_pos h]
  exact foldl_digits_mod s 0

theorem parseUint64Safe_toDecimal (n : Nat) : parseUint64Safe (toDecimal n) = n % 2 ^ 64 := by
  have hall : (toDecimal n).all isDigit = true :=
    List.all_eq_true.mpr fun b hb => isDigit_of_mem_toDecimal hb
  rw [parseUint64Safe_digits hall, decimalValue_toDecimal]

/-! ## 6. Numerals out of range -/

/-- What the name `parseUint64Safe` promises: the value of a numeral that fits, 0 for everything
    else; and so what `std::stoull` makes of a numeral, if it does not throw. -/
structure ParsesSafely (s : Bytes) : Prop where
  value : s ≠ [] → s.all isDigit = true → decimalValue s < 2 ^ 64 → parseUint64Safe s = decimalValue s
  otherwise : s = [] ∨ s.all isDigit = false ∨ 2 ^ 64 ≤ decimalValue s → parseUint64Safe s = 0
  stoull : s ≠ [] → s.all isDigit = true → parseUint64Safe s = (stoull s).getD 0

/-- **A numeral is parsed safely exactly if it fits**, or is a multiple of `2 ^ 64`. -/
theorem parsesSafely_iff (s : Bytes) :
    ParsesSafely s ↔ (s.all isDigit = true → 2 ^ 64 ≤ decimalValue s → 2 ^ 64 ∣ decimalValue s) := by
  constructor
  · intro h hdigits hlarge
    have hzero := h.otherwise (Or.inr (Or.inr hlarge))
    rw [parseUint64Safe_digits hdigits] at hzero
    exact Nat.dvd_of_mod_eq_zero hzero
  · intro h
    have hlarge : s.all isDigit = true → 2 ^ 64 ≤ decimalValue s → parseUint64Safe s = 0 := by
      intro hdigits hle
      rw [parseUint64Safe_digits hdigits]
      exact Nat.mod_eq_zero_of_dvd (h hdigits hle)
    have hsmall : s.all isDigit = true → decimalValue s < 2 ^ 64 → parseUint64Safe s = decimalValue s := by
      intro hdigits hlt
      rw [parseUint64Safe_digits hdigits, Nat.mod_eq_of_lt hlt]
    have hother : s.all isDigit = false → parseUint64Safe s = 0 := by
      intro hdigits
      rw [parseUint64Safe, if_neg (by simp [hdigits])]
    refine ⟨fun _ => hsmall, fun hbad => ?_, fun _ hdigits => ?_⟩
    · rcases hbad with rfl | hdigits | hle
      · rfl
      · exact hother hdigits
      · cases hdigits : s.all isDigit with
        | true => exact hlarge hdigits hle
        | false => exact hother hdigits
    · show parseUint64Safe s = (if decimalValue s < 2 ^ 64 then some (decimalValue s) else none).getD 0
      split
      · next hlt => exact hsmall hdigits hlt
      · next hge => exact hlarge hdigits (Nat.le_of_not_lt hge)

/-- `2 ^ 64 + 1` becomes message 1; `std::stoull` would have thrown. -/
theorem out_of_range_parsed : parseUint64Safe (ascii "18446744073709551617") = 1 ∧
    stoull (ascii "18446744073709551617") = none ∧ ¬ ParsesSafely (ascii "18446744073709551617") := by
  have hone : parseUint64Safe (ascii "18446744073709551617") = 1 := by decide
  have hnone : stoull (ascii "18446744073709551617") = none := by decide
  refine ⟨hone, hnone, fun h => ?_⟩
  have hsame := h.stoull (by decide) (by decide)
  rw [hone, hnone] at hsame
  exact absurd hsame (by decide)

end EpollChat
