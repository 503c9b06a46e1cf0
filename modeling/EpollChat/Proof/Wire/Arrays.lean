import EpollChat.Proof.Wire.Decode
import EpollChat.Proof.Wire.Render

/-!
# Reading an object that ends in an array

The JSON text of an acknowledgement has an array of numbers behind its string members, which
the extractors and the array scanner both read past or up to. As long as no value spells a
name, `get` finds the value of each member (`getField_objectWithIds`) and the scanner every
number (`parseJsonUint64ArrayFast_objectWithIds`).
-/

namespace EpollChat

open Lib

/-! ## 1. String members before anything else -/

/-- The value of the first member of that name. -/
def valueOf (key : Bytes) : List (Bytes × Bytes) → Bytes
  | [] => []
  | (k, v) :: ms => if key = k then v else valueOf key ms

theorem valueOf_of_not_key {key : Bytes} : ∀ {ms : List (Bytes × Bytes)}, (∀ m ∈ ms, key ≠ m.1) →
    valueOf key ms = [] := by
  intro ms
  induction ms with
  | nil => exact fun _ => rfl
  | cons m ms ih =>
    intro h
    obtain ⟨k, v⟩ := m
    rw [valueOf, if_neg (h (k, v) List.mem_cons_self)]
    exact ih fun m hm => h m (List.mem_cons_of_mem _ hm)

theorem valueOf_optMember_of_ne {key k : Bytes} (h : key ≠ k) (v : Bytes) (ms : List (Bytes × Bytes)) :
    valueOf key (optMember k v ++ ms) = valueOf key ms := by
  unfold optMember
  split
  · rfl
  · rw [List.singleton_append, valueOf, if_neg h]

theorem valueOf_optMember {k : Bytes} (v : Bytes) {ms : List (Bytes × Bytes)} (h : valueOf k ms = []) :
    valueOf k (optMember k v ++ ms) = v := by
  unfold optMember
  split
  · next hv => rw [hv]; exact h
  · rw [List.singleton_append, valueOf, if_pos rfl]

theorem valueOf_last_of_ne {key k : Bytes} (h : key ≠ k) (v : Bytes) : valueOf key (optMember k v) = [] := by
  rw [← List.append_nil (optMember k v), valueOf_optMember_of_ne h]
  rfl

theorem valueOf_last (k v : Bytes) : valueOf k (optMember k v) = v := by
  rw [← List.append_nil (optMember k v)]
  exact valueOf_optMember v rfl

/-- Where no value spells the name, `get` finds the value of the member. -/
theorem getLookup_eq_valueOf {key : Bytes} : ∀ {ms : List (Bytes × Bytes)}, (∀ m ∈ ms, key ≠ m.2) →
    getLookup key ms = valueOf key ms := by
  intro ms
  induction ms with
  | nil => exact fun _ => rfl
  | cons m ms ih =>
    intro h
    obtain ⟨k, v⟩ := m
    rw [getLookup, valueOf, if_neg (h (k, v) List.mem_cons_self),
      ih fun m hm => h m (List.mem_cons_of_mem _ hm)]

/-- The search goes to the member of that name, or behind all of them. -/
theorem seek_membersOpen {key tail : Bytes} (hk : IsKey key) (htail : ¬ key ++ [quote] <+: tail) :
    ∀ {ms : List (Bytes × Bytes)} {c : UInt8}, c ≠ quote →
      (∀ m ∈ ms, quote ∉ m.1 ∧ quote ∉ m.2 ∧ key ≠ m.2) →
      (∃ m ∈ ms, m.1 = key ∧ m.2 = valueOf key ms ∧
        ∃ r, seek (quoted key) (membersOpen c ms ++ tail) = some (memberText key (valueOf key ms) ++ r)) ∨
      ((∀ m ∈ ms, key ≠ m.1) ∧ seek (quoted key) (membersOpen c ms ++ tail) = seek (quoted key) tail) := by
  intro ms
  induction ms with
  | nil => exact fun _ _ => Or.inr ⟨fun m hm => absurd hm List.not_mem_nil, rfl⟩
  | cons m ms ih =>
    intro c hc hms
    obtain ⟨k, v⟩ := m
    obtain ⟨hk', hv, hkv⟩ := hms (k, v) List.mem_cons_self
    have hms' : ∀ m ∈ ms, quote ∉ m.1 ∧ quote ∉ m.2 ∧ key ≠ m.2 :=
      fun m hm => hms m (List.mem_cons_of_mem _ hm)
    have hrest : ¬ key ++ [quote] <+: membersOpen comma ms ++ tail := by
      cases ms with
      | nil => exact htail
      | cons m ms => exact not_key_at_comma hk
    have hseek := seek_member hk hc hk' hv hrest
    rw [show membersOpen c ((k, v) :: ms) ++ tail
        = c :: (memberText k v ++ (membersOpen comma ms ++ tail)) by simp [membersOpen], hseek, valueOf]
    by_cases hkk : key = k
    · rw [if_pos hkk, if_pos hkk, ← hkk]
      exact Or.inl ⟨(key, v), List.mem_cons_self, rfl, rfl, _, rfl⟩
    · rw [if_neg hkk, if_neg hkk, if_neg hkv]
      rcases ih (c := comma) (by decide) hms' with ⟨m, hm, hmk, hmv, r, hr⟩ | ⟨hnot, hr⟩
      · exact Or.inl ⟨m, List.mem_cons_of_mem _ hm, hmk, hmv, r, hr⟩
      · refine Or.inr ⟨fun m hm => ?_, hr⟩
        rcases List.mem_cons.mp hm with rfl | hm
        · exact hkk
        · exact hnot m hm

theorem getField_of_seek {json key v r : Bytes} (hk : IsKey key) (hv : Quotable v) (hne : v ≠ [])
    (h : seek (quoted key) json = some (memberText key v ++ r)) : getField json key = v := by
  have hdrop : (memberText key v ++ r).drop (key.length + 2) = colon :: (quoted v ++ r) := by
    simp [memberText, quoted]
  have hfast : extractJsonStringFast json key = some v := by
    rw [extractJsonStringFast_eq hk, h]
    dsimp only
    rw [hdrop]
    exact stringAfterKey_member r hv.no_quote hv.last
  rw [getField, hfast]
  exact if_neg hne

theorem getField_of_not_found {json key : Bytes} (hk : IsKey key) (h : seek (quoted key) json = none) :
    getField json key = [] := by
  have hfast : extractJsonStringFast json key = none := by rw [extractJsonStringFast_eq hk, h]
  rw [getField, hfast]
  dsimp only [Option.getD_none]
  rw [if_pos rfl, extractJsonValueLite, extractJsonValue, h]

/-! ## 2. The array -/

theorem quote_not_mem_numbersRest : ∀ ns : List Nat, quote ∉ numbersRest ns
  | [] => by decide
  | n :: ns => by
    simp only [numbersRest, List.mem_cons, List.mem_append, not_or]
    exact ⟨by decide, not_mem_toDecimal (by decide) n, quote_not_mem_numbersRest ns⟩

theorem quote_not_mem_numbersText (ids : List Nat) : quote ∉ numbersText ids := by
  cases ids with
  | nil => decide
  | cons n ns =>
    simp only [numbersText, List.mem_append, not_or]
    exact ⟨not_mem_toDecimal (by decide) n, quote_not_mem_numbersRest ns⟩

/-- The text behind the name of the array. -/
def arrayEnd (ids : List Nat) : Bytes := colon :: openBracket :: (numbersText ids ++ [closeBrace])

theorem quote_not_mem_arrayEnd (ids : List Nat) : quote ∉ arrayEnd ids := by
  simp only [arrayEnd, List.mem_cons, List.mem_append, List.not_mem_nil, or_false, not_or]
  exact ⟨by decide, by decide, quote_not_mem_numbersText ids, by decide⟩

/-- Only the name of the array is found in it. -/
theorem seek_idsFrom {key : Bytes} (hk : IsKey key) {c : UInt8} (hc : c ≠ quote) (ids : List Nat) :
    seek (quoted key) (idsFrom c ids)
      = if ids ≠ [] ∧ key = ascii "msg_ids" then some (quoted key ++ arrayEnd ids) else none := by
  unfold idsFrom
  split
  · next hids =>
    have hbrace : quote ∉ (if c = openBrace then [openBrace, closeBrace] else [closeBrace]) := by
      split <;> decide
    rw [seek_quoted_eq_none hbrace, if_neg fun h => h.1 hids]
  · next hids =>
    have htext : c :: (quoted (ascii "msg_ids") ++ (colon :: openBracket :: (numbersText ids ++ [closeBrace])))
        = [c] ++ quote :: (ascii "msg_ids" ++ quote :: arrayEnd ids) := by
      simp [quoted, arrayEnd]
    rw [htext, quoted, seek_delim (by simpa using hc.symm)]
    by_cases hkey : key = ascii "msg_ids"
    · rw [if_pos ((delimited_prefix_iff hk.2.1 (by decide)).mpr hkey), if_pos ⟨hids, hkey⟩, hkey]
      simp
    · rw [if_neg fun h => hkey ((delimited_prefix_iff hk.2.1 (by decide)).mp h), if_neg fun h => hkey h.2,
        seek_delim (by decide), if_neg (not_delimited_within (quote_not_mem_arrayEnd ids))]
      exact seek_quoted_eq_none (quote_not_mem_arrayEnd ids)

theorem not_key_at_idsFrom {key : Bytes} (hk : IsKey key) (ids : List Nat) :
    ¬ key ++ [quote] <+: idsFrom comma ids := by
  unfold idsFrom
  split
  · exact not_delimited_within (by decide)
  · exact not_key_at_comma hk

/-- **`get` on an object with an array at its end.** -/
theorem getField_objectWithIds {key : Bytes} (hk : IsKey key) (hkey : key ≠ ascii "msg_ids")
    {ms : List (Bytes × Bytes)} (hms : ∀ m ∈ ms, quote ∉ m.1 ∧ Quotable m.2 ∧ m.2 ≠ [] ∧ key ≠ m.2)
    (ids : List Nat) : getField (objectWithIds ms ids) key = valueOf key ms := by
  have hend : ∀ {c : UInt8}, c ≠ quote → seek (quoted key) (idsFrom c ids) = none := by
    intro c hc
    rw [seek_idsFrom hk hc, if_neg fun h => hkey h.2]
  by_cases hnil : ms = []
  · subst hnil
    exact getField_of_not_found hk (hend (by decide))
  · rw [objectWithIds, if_neg hnil]
    rcases seek_membersOpen hk (not_key_at_idsFrom hk ids) (c := openBrace) (by decide)
      (fun m hm => ⟨(hms m hm).1, (hms m hm).2.1.no_quote, (hms m hm).2.2.2⟩) with
      ⟨m, hm, -, hmv, r, hr⟩ | ⟨hnot, hr⟩
    · obtain ⟨-, hq, hne, -⟩ := hms m hm
      rw [hmv] at hq hne
      exact getField_of_seek hk hq hne hr
    · rw [hend (by decide)] at hr
      rw [valueOf_of_not_key hnot]
      exact getField_of_not_found hk hr

/-! ## 3. The scanner -/

theorem numbersRest_cons (ns : List Nat) :
    ∃ c r, numbersRest ns = c :: r ∧ isDigit c = false ∧ (c = comma ∨ c = closeBracket) := by
  cases ns with
  | nil => exact ⟨closeBracket, [], rfl, by decide, Or.inr rfl⟩
  | cons n ns => exact ⟨comma, _, rfl, by decide, Or.inl rfl⟩

theorem takeWhile_toDecimal (n : Nat) {c : UInt8} (r : Bytes) (hc : isDigit c = false) :
    (toDecimal n ++ c :: r).takeWhile isDigit = toDecimal n := by
  rw [List.takeWhile_append_of_pos fun b hb => isDigit_of_mem_toDecimal hb,
    List.takeWhile_cons_of_neg (by simp [hc]),
    List.append_nil]

theorem dropWhile_toDecimal (n : Nat) {c : UInt8} (r : Bytes) (hc : isDigit c = false) :
    (toDecimal n ++ c :: r).dropWhile isDigit = c :: r := by
  rw [List.dropWhile_append_of_pos fun b hb => isDigit_of_mem_toDecimal hb,
    List.dropWhile_cons_of_neg (by simp [hc])]

/-- The scanner skips up to a number, not into it. -/
theorem dropWhile_blank_toDecimal (n : Nat) (r : Bytes) :
    ((toDecimal n ++ r).dropWhile fun b => isBlank b || b == comma) = toDecimal n ++ r := by
  obtain ⟨d, ds, hd⟩ := List.exists_cons_of_ne_nil (toDecimal_ne_nil n)
  have hmem : d ∈ toDecimal n := by rw [hd]; exact List.mem_cons_self
  have hne : ∀ b : UInt8, isDigit b = false → d ≠ b := by
    rintro b hb rfl
    exact not_mem_toDecimal hb n hmem
  rw [hd, List.cons_append, List.dropWhile_cons_of_neg]
  simp only [isBlank, Bool.or_eq_true, beq_iff_eq]
  rintro ((((h | h) | h) | h) | h)
  · exact hne space (by decide) h
  · exact hne 9 (by decide) h
  · exact hne 13 (by decide) h
  · exact hne 10 (by decide) h
  · exact hne comma (by decide) h

/-- One round of the scanner: a number is read, up to the separator behind it. -/
theorem parseUint64s_number {maxCount rounds n : Nat} {r rest : Bytes} {c : UInt8} {out : List Nat}
    (hn : n < 2 ^ 64) (hroom : out.length < maxCount) (hc : c = comma ∨ c = closeBracket)
    (hr : (r.dropWhile fun b => isBlank b || b == comma) = toDecimal n ++ c :: rest) :
    parseUint64s maxCount (rounds + 1) r out
      = if c = closeBracket then out ++ [n] else parseUint64s maxCount rounds (c :: rest) (out ++ [n]) := by
  have hdigit : isDigit c = false := by rcases hc with rfl | rfl <;> decide
  have hstop : ((c :: rest).dropWhile fun b => !(b == comma || b == closeBracket)) = c :: rest := by
    rcases hc with rfl | rfl
    · exact List.dropWhile_cons_of_neg (by decide)
    · exact List.dropWhile_cons_of_neg (by decide)
  obtain ⟨d, ds, hd⟩ := List.exists_cons_of_ne_nil (toDecimal_ne_nil n)
  have hdb : d ≠ closeBracket := by
    rintro rfl
    exact not_mem_toDecimal (b := closeBracket) (by decide) n (by rw [hd]; exact List.mem_cons_self)
  have hrne : ¬ (r = [] ∨ maxCount ≤ out.length) := by
    rintro (rfl | hle)
    · rw [hd] at hr
      exact absurd hr (by simp)
    · omega
  have htake := takeWhile_toDecimal n rest hdigit
  have hdrop := dropWhile_toDecimal n rest hdigit
  rw [parseUint64s, if_neg hrne]
  dsimp only
  rw [hr, htake, hdrop, hstop, if_neg (toDecimal_ne_nil n), stoull_toDecimal hn]
  rw [hd, List.cons_append]
  dsimp only
  rw [if_neg hdb]

/-- A scanner that has all it may take stops. -/
theorem parseUint64s_full {maxCount rounds : Nat} {r : Bytes} {out : List Nat}
    (h : maxCount ≤ out.length) : parseUint64s maxCount rounds r out = out := by
  cases rounds with
  | zero => rfl
  | succ rounds => rw [parseUint64s, if_pos (Or.inr h)]

/-- The scanner on the rest of an array: it takes the numbers up to its limit. -/
theorem parseUint64s_numbers {maxCount : Nat} (tail : Bytes) : ∀ {ns : List Nat} {n rounds : Nat}
    {r : Bytes} {out : List Nat}, (∀ k ∈ n :: ns, k < 2 ^ 64) → out.length < maxCount →
      ns.length < rounds →
      (r.dropWhile fun b => isBlank b || b == comma) = toDecimal n ++ (numbersRest ns ++ tail) →
      parseUint64s maxCount rounds r out = (out ++ n :: ns).take maxCount := by
  intro ns
  induction ns with
  | nil =>
    intro n rounds r out hlt hroom hrounds hr
    obtain ⟨rounds, rfl⟩ : ∃ k, rounds = k + 1 := ⟨rounds - 1, by omega⟩
    rw [parseUint64s_number (hlt n List.mem_cons_self) hroom (Or.inr rfl) hr, if_pos rfl,
      List.take_of_length_le (by simpa using Nat.succ_le_of_lt hroom)]
  | cons k ns ih =>
    intro n rounds r out hlt hroom hrounds hr
    rw [List.length_cons] at hrounds
    obtain ⟨rounds, rfl⟩ : ∃ k, rounds = k + 1 := ⟨rounds - 1, by omega⟩
    rw [numbersRest, List.cons_append, List.append_assoc] at hr
    rw [parseUint64s_number (hlt n List.mem_cons_self) hroom (Or.inl rfl) hr,
      if_neg (show comma ≠ closeBracket by decide), List.append_cons out n (k :: ns)]
    have hlen : (out ++ [n]).length = out.length + 1 := by simp
    rcases Nat.lt_or_ge (out ++ [n]).length maxCount with hlt' | hge
    · refine ih (fun j hj => hlt j (List.mem_cons_of_mem _ hj)) hlt' (by omega) ?_
      rw [List.dropWhile_cons_of_pos (by decide)]
      exact dropWhile_blank_toDecimal k _
    · rw [parseUint64s_full hge, List.take_append_of_le_length (by omega),
        List.take_of_length_le (by omega)]

theorem length_numbersText_le (ids : List Nat) : ids.length ≤ (numbersText ids).length := by
  have hrest : ∀ ns : List Nat, ns.length ≤ (numbersRest ns).length := by
    intro ns
    induction ns with
    | nil => exact Nat.zero_le _
    | cons n ns ih =>
      simp only [numbersRest, List.length_cons, List.length_append]
      omega
  cases ids with
  | nil => exact Nat.zero_le _
  | cons n ns =>
    have hpos := List.length_pos_iff.mpr (toDecimal_ne_nil n)
    have := hrest ns
    simp only [numbersText, List.length_cons, List.length_append]
    omega

/-- The scanner, once the name and the bracket behind it are found. -/
theorem parseJsonUint64ArrayFast_of_seek {maxCount : Nat} {json w tail : Bytes} {ids : List Nat}
    (hseek : seek (quoted (ascii "msg_ids")) json = some (quoted (ascii "msg_ids") ++ w))
    (hbracket : seek [openBracket] w = some (openBracket :: (numbersText ids ++ tail)))
    (hids : ids ≠ []) (hlt : ∀ n ∈ ids, n < 2 ^ 64) (hroom : 0 < maxCount) :
    parseJsonUint64ArrayFast json (ascii "msg_ids") maxCount = ids.take maxCount := by
  have hlen := length_numbersText_le ids
  rw [parseJsonUint64ArrayFast, if_neg (by decide), hseek]
  dsimp only
  rw [List.drop_left, hbracket]
  dsimp only [List.tail_cons]
  cases ids with
  | nil => exact absurd rfl hids
  | cons n ns =>
    rw [parseUint64s_numbers tail hlt (by simpa using hroom) ?_ ?_, List.nil_append]
    · rw [List.length_cons] at hlen
      rw [List.length_append]
      omega
    · rw [numbersText, List.append_assoc]
      exact dropWhile_blank_toDecimal n _

/-- **The scanner finds the numbers of the array**, as long as no string is its name. -/
theorem parseJsonUint64ArrayFast_objectWithIds {maxCount : Nat} {ms : List (Bytes × Bytes)}
    (hms : ∀ m ∈ ms, quote ∉ m.1 ∧ quote ∉ m.2 ∧ ascii "msg_ids" ≠ m.1 ∧ ascii "msg_ids" ≠ m.2)
    {ids : List Nat} (hlt : ∀ n ∈ ids, n < 2 ^ 64) (hroom : 0 < maxCount) :
    parseJsonUint64ArrayFast (objectWithIds ms ids) (ascii "msg_ids") maxCount = ids.take maxCount := by
  have hk : IsKey (ascii "msg_ids") := by decide
  have hseek : seek (quoted (ascii "msg_ids")) (objectWithIds ms ids)
      = if ids ≠ [] then some (quoted (ascii "msg_ids") ++ arrayEnd ids) else none := by
    have hend : ∀ {c : UInt8}, c ≠ quote → seek (quoted (ascii "msg_ids")) (idsFrom c ids)
        = if ids ≠ [] then some (quoted (ascii "msg_ids") ++ arrayEnd ids) else none := by
      intro c hc
      rw [seek_idsFrom hk hc]
      simp only [and_true]
    by_cases hnil : ms = []
    · subst hnil
      exact hend (by decide)
    · rw [objectWithIds, if_neg hnil]
      rcases seek_membersOpen hk (not_key_at_idsFrom hk ids) (c := openBrace) (by decide)
        (fun m hm => ⟨(hms m hm).1, (hms m hm).2.1, (hms m hm).2.2.2⟩) with
        ⟨m, hm, hmk, -⟩ | ⟨-, hr⟩
      · exact absurd hmk.symm (hms m hm).2.2.1
      · rw [hr]
        exact hend (by decide)
  by_cases hids : ids = []
  · rw [parseJsonUint64ArrayFast, if_neg hk.1, hseek, if_neg (by simp [hids]), hids, List.take_nil]
  · rw [if_pos hids] at hseek
    exact parseJsonUint64ArrayFast_of_seek hseek (seek_singleton (w := [colon]) (by decide)) hids hlt hroom

end EpollChat
