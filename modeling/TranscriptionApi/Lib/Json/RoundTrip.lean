import TranscriptionApi.Lib.Json.Scalars

/-!
What `json.dumps` prints, `json.loads` reads back.

The scanner is run on the printed text followed by any text that does not
continue a number, and is shown to stop exactly behind the printed value. For
containers this is an induction over the value. Objects come back as they were
because their keys are distinct: every entry is an assignment of a new key.
-/

namespace TranscriptionApi.Lib.Json

section Values

variable {φ : Type} {F : Floats φ} {limits : Limits}

/-! ### Printed containers -/

/-- The printed parts of a non-empty list. -/
theorem valueText_arr {depth : ℕ} {item : Value φ} {items : List (Value φ)} {text : List Char}
    (h : valueText F limits depth (.arr (item :: items)) = .ok text) :
    ∃ d first others, depth = d + 1 ∧ valueText F limits d item = .ok first ∧
      itemsText F limits d items = .ok others ∧ text = '[' :: (first ++ (others ++ [']'])) := by
  cases depth with
  | zero => cases h
  | succ d =>
      rw [valueText] at h
      obtain ⟨first, hfirst, h⟩ := bind_eq_ok h
      obtain ⟨others, hothers, h⟩ := bind_eq_ok h
      cases h
      exact ⟨d, first, others, rfl, hfirst, hothers, by simp⟩

theorem valueText_obj {depth : ℕ} {k : Str} {v : Value φ} {fields : Fields φ} {text : List Char}
    (h : valueText F limits depth (.obj ((k, v) :: fields)) = .ok text) :
    ∃ d first others, depth = d + 1 ∧ valueText F limits d v = .ok first ∧
      fieldsText F limits d fields = .ok others ∧
      text = '{' :: (stringText k ++ ':' :: ' ' :: (first ++ (others ++ ['}']))) := by
  cases depth with
  | zero => cases h
  | succ d =>
      rw [valueText] at h
      obtain ⟨first, hfirst, h⟩ := bind_eq_ok h
      obtain ⟨others, hothers, h⟩ := bind_eq_ok h
      cases h
      exact ⟨d, first, others, rfl, hfirst, hothers, by simp⟩

theorem itemsText_cons {depth : ℕ} {item : Value φ} {items : List (Value φ)} {text : List Char}
    (h : itemsText F limits depth (item :: items) = .ok text) :
    ∃ first others, valueText F limits depth item = .ok first ∧
      itemsText F limits depth items = .ok others ∧ text = ',' :: ' ' :: (first ++ others) := by
  rw [itemsText] at h
  obtain ⟨first, hfirst, h⟩ := bind_eq_ok h
  obtain ⟨others, hothers, h⟩ := bind_eq_ok h
  cases h
  exact ⟨first, others, hfirst, hothers, rfl⟩

theorem fieldsText_cons {depth : ℕ} {k : Str} {v : Value φ} {fields : Fields φ}
    {text : List Char} (h : fieldsText F limits depth ((k, v) :: fields) = .ok text) :
    ∃ first others, valueText F limits depth v = .ok first ∧
      fieldsText F limits depth fields = .ok others ∧
      text = ',' :: ' ' :: (stringText k ++ ':' :: ' ' :: (first ++ others)) := by
  rw [fieldsText] at h
  obtain ⟨first, hfirst, h⟩ := bind_eq_ok h
  obtain ⟨others, hothers, h⟩ := bind_eq_ok h
  cases h
  exact ⟨first, others, hfirst, hothers, by simp⟩

/-- A character a printed value may start with. -/
def Opens (c : Char) : Prop := isSpace c = false ∧ c ≠ ']'

theorem opens_of_isDigit {c : Char} (h : isDigit c = true) : Opens c := by
  refine ⟨?_, ne_of_isDigit h rfl⟩
  simp only [isSpace, Bool.or_eq_false_iff, decide_eq_false_iff_not]
  exact ⟨⟨⟨ne_of_isDigit h rfl, ne_of_isDigit h rfl⟩, ne_of_isDigit h rfl⟩, ne_of_isDigit h rfl⟩

theorem Literal.Valid.opens {l : Literal} (h : l.Valid) : ∃ c t, l.text = c :: t ∧ Opens c := by
  rcases h.text_cons with ⟨c, t, htext, hc⟩ | ⟨c, t, htext, -⟩
  · exact ⟨c, t, htext, opens_of_isDigit hc⟩
  · exact ⟨'-', c :: t, htext, by decide, by decide⟩

theorem valueText_opens {depth : ℕ} {v : Value φ} {text : List Char}
    (h : valueText F limits depth v = .ok text) : ∃ c t, text = c :: t ∧ Opens c := by
  cases v with
  | null => exact ⟨'n', _, (Except.ok.inj h).symm, by decide, by decide⟩
  | bool b =>
      cases b with
      | true => exact ⟨'t', _, (Except.ok.inj h).symm, by decide, by decide⟩
      | false => exact ⟨'f', _, (Except.ok.inj h).symm, by decide, by decide⟩
  | int n =>
      rw [valueText] at h
      split at h
      · rw [← Except.ok.inj h]
        exact (valid_intLiteral n).opens
      · cases h
  | float x =>
      rw [← Except.ok.inj h]
      cases x with
      | finite x =>
          obtain ⟨l, hvalid, -, htext⟩ := F.repr_literal x
          rw [numberText, ← htext]
          exact hvalid.opens
      | nan => exact ⟨'N', _, rfl, by decide, by decide⟩
      | infinity => exact ⟨'I', _, rfl, by decide, by decide⟩
      | negInfinity => exact ⟨'-', _, rfl, by decide, by decide⟩
  | str s => exact ⟨'"', _, (Except.ok.inj h).symm, by decide, by decide⟩
  | arr items =>
      cases items with
      | nil =>
          cases depth with
          | zero => cases h
          | succ d => exact ⟨'[', _, (Except.ok.inj h).symm, by decide, by decide⟩
      | cons item items =>
          obtain ⟨d, first, others, -, -, -, rfl⟩ := valueText_arr h
          exact ⟨'[', _, rfl, by decide, by decide⟩
  | obj fields =>
      cases fields with
      | nil =>
          cases depth with
          | zero => cases h
          | succ d => exact ⟨'{', _, (Except.ok.inj h).symm, by decide, by decide⟩
      | cons kv fields =>
          obtain ⟨d, first, others, -, -, -, rfl⟩ := valueText_obj h
          exact ⟨'{', _, rfl, by decide, by decide⟩

mutual

/-- Every object in the value has each of its keys once. -/
def Value.Distinct : Value φ → Prop
  | .arr items => itemsDistinct items
  | .obj fields => (Fields.keys fields).Nodup ∧ fieldsDistinct fields
  | _ => True

def itemsDistinct : List (Value φ) → Prop
  | [] => True
  | item :: items => Value.Distinct item ∧ itemsDistinct items

def fieldsDistinct : List (Str × Value φ) → Prop
  | [] => True
  | (_, v) :: fields => Value.Distinct v ∧ fieldsDistinct fields

end

theorem itemsDistinct_iff {items : List (Value φ)} :
    itemsDistinct items ↔ ∀ v ∈ items, v.Distinct := by
  induction items with
  | nil => exact iff_of_true trivial fun v hv => absurd hv List.not_mem_nil
  | cons v items ih =>
      rw [List.forall_mem_cons, ← ih]
      exact Iff.rfl

theorem fieldsDistinct_iff {fields : Fields φ} :
    fieldsDistinct fields ↔ ∀ e ∈ fields, e.2.Distinct := by
  induction fields with
  | nil => exact iff_of_true trivial fun e he => absurd he List.not_mem_nil
  | cons e fields ih =>
      rw [List.forall_mem_cons, ← ih]
      exact Iff.rfl

theorem Value.Distinct.of_get? {fields : Fields φ} (h : (Value.obj fields).Distinct) {k : Str}
    {v : Value φ} (hv : fields.get? k = some v) : v.Distinct := by
  obtain ⟨e, he, rfl⟩ := Option.map_eq_some_iff.mp hv
  exact fieldsDistinct_iff.mp h.2 e (List.mem_of_find?_eq_some he)

/-- An assignment makes no key twice. -/
theorem Value.Distinct.setItem {fields : Fields φ} (h : (Value.obj fields).Distinct) (k : Str)
    {v : Value φ} (hv : v.Distinct) : (Value.obj (fields.setItem k v)).Distinct := by
  refine ⟨?_, fieldsDistinct_iff.mpr fun e he => ?_⟩
  · rw [Fields.keys_setItem]
    split
    · exact h.1
    · rename_i hk
      refine List.nodup_append.mpr ⟨h.1, List.nodup_singleton k, fun a ha b hb => ?_⟩
      rw [List.mem_singleton.mp hb]
      rintro rfl
      exact hk ha
  · by_cases hk : e.1 = k
    · rw [Fields.eq_of_mem_setItem he hk]
      exact hv
    · refine fieldsDistinct_iff.mp h.2 e ?_
      unfold Fields.setItem at he
      split at he
      · obtain ⟨e', he', rfl⟩ := List.mem_map.mp he
        split at hk
        · exact absurd rfl hk
        · rename_i hne
          rw [if_neg hne]
          exact he'
      · rcases List.mem_append.mp he with he | he
        · exact he
        · rw [List.mem_singleton.mp he] at hk
          exact absurd rfl hk

theorem skipSpace_cons {c : Char} {s : List Char} (h : isSpace c = false) :
    skipSpace (c :: s) = c :: s := List.dropWhile_cons_of_neg (by rw [h]; decide)

theorem peek_cons {c : Char} {s : List Char} (h : isSpace c = false) :
    peek (c :: s) = some c := by
  rw [peek, skipSpace_cons h, List.head?_cons]

theorem after_cons {c : Char} {s : List Char} (h : isSpace c = false) : after (c :: s) = s := by
  rw [after, skipSpace_cons h, List.drop_one, List.tail_cons]

/-- A blank and a character that is none. -/
theorem skipSpace_blank {c : Char} {s : List Char} (h : isSpace c = false) :
    skipSpace (' ' :: c :: s) = c :: s := by
  rw [skipSpace, List.dropWhile_cons_of_pos rfl]
  exact skipSpace_cons h

theorem scanOnce_scalar {fuel depth : ℕ} {c : Char} {s : List Char} (hstring : c ≠ '"')
    (harray : c ≠ '[') (hobject : c ≠ '{') :
    scanOnce F limits (fuel + 1) depth (c :: s) = scanScalar F limits (c :: s) := by
  rw [scanOnce]
  simp only [List.head?_cons, Option.some.injEq, hstring, harray, hobject, if_false]

theorem scanOnce_string (fuel depth : ℕ) (str : Str) (s : List Char) :
    scanOnce F limits (fuel + 1) depth (stringText str ++ s) = .ok (.str str, s) := by
  have htext : stringText str ++ s = '"' :: (str.flatMap escapeUnit ++ '"' :: s) := by
    simp [stringText]
  rw [scanOnce, htext, List.head?_cons, if_pos rfl, List.drop_one, List.tail_cons,
    expectString_stringText]
  rfl

theorem scanOnce_literal {l : Literal} (h : l.Valid) (fuel depth : ℕ) (s : List Char) :
    scanOnce F limits (fuel + 1) depth (l.text ++ s) = scanScalar F limits (l.text ++ s) := by
  rcases h.text_cons with ⟨c, t, htext, hc⟩ | ⟨c, t, htext, -⟩
  · rw [htext]
    exact scanOnce_scalar (ne_of_isDigit hc rfl) (ne_of_isDigit hc rfl) (ne_of_isDigit hc rfl)
  · rw [htext]
    exact scanOnce_scalar (by decide) (by decide) (by decide)

theorem scanKey_stringText {c : Char} {s : List Char} (k : Str) (hc : isSpace c = false) :
    scanKey (stringText k ++ ':' :: ' ' :: c :: s) = .ok (k, c :: s) := by
  have htext : stringText k ++ ':' :: ' ' :: c :: s =
      '"' :: (k.flatMap escapeUnit ++ '"' :: ':' :: ' ' :: c :: s) := by
    simp [stringText]
  rw [scanKey, htext, List.head?_cons, if_pos rfl, List.drop_one, List.tail_cons,
    expectString_stringText]
  simp only [Except.bind]
  rw [peek_cons rfl, if_pos rfl, after_cons rfl, skipSpace_blank hc]

/-- The scanner reads `text` as `v`, whatever comes behind it. -/
def Reads (F : Floats φ) (limits : Limits) (depth : ℕ) (text : List Char) (v : Value φ) : Prop :=
  ∀ fuel s, Stops s → 2 * text.length + 1 ≤ fuel →
    scanOnce F limits fuel depth (text ++ s) = .ok (v, s)

theorem stops_comma (s : List Char) : Stops (',' :: s) := stops_cons (by decide)

theorem stops_bracket (s : List Char) : Stops (']' :: s) := stops_cons (by decide)

theorem stops_brace (s : List Char) : Stops ('}' :: s) := stops_cons (by decide)

theorem Reads.step {depth : ℕ} {text : List Char} {v : Value φ}
    (h : ∀ fuel s, Stops s → 2 * text.length ≤ fuel →
      scanOnce F limits (fuel + 1) depth (text ++ s) = .ok (v, s)) :
    Reads F limits depth text v := by
  intro fuel s hs hfuel
  obtain ⟨fuel, rfl⟩ : ∃ n, fuel = n + 1 := ⟨fuel - 1, by omega⟩
  exact h fuel s hs (by omega)

theorem scanOnce_items {depth fuel : ℕ} {text s : List Char} {r : List (Value φ) × List Char}
    (hopens : ∃ c t, text = c :: t ∧ Opens c)
    (h : scanItems F limits fuel depth (text ++ s) = .ok r) :
    scanOnce F limits (fuel + 1) (depth + 1) ('[' :: (text ++ s)) = .ok (.arr r.1, r.2) := by
  obtain ⟨c, t, rfl, hspace, hclose⟩ := hopens
  rw [List.cons_append] at h ⊢
  rw [scanOnce, List.head?_cons, if_neg (by decide), if_pos rfl, if_neg (Nat.succ_ne_zero depth),
    List.drop_one, List.tail_cons, peek_cons hspace,
    if_neg (fun heq => hclose (Option.some.inj heq)), skipSpace_cons hspace, Nat.add_sub_cancel, h]
  rfl

theorem scanOnce_fields {depth fuel : ℕ} {k : Str} {s : List Char} {r : Fields φ × List Char}
    (h : scanFields F limits fuel depth [] (stringText k ++ s) = .ok r) :
    scanOnce F limits (fuel + 1) (depth + 1) ('{' :: (stringText k ++ s)) =
      .ok (.obj r.1, r.2) := by
  have htext : stringText k ++ s = '"' :: (k.flatMap escapeUnit ++ '"' :: s) := by
    simp [stringText]
  rw [htext] at h ⊢
  rw [scanOnce, List.head?_cons, if_neg (by decide), if_neg (by decide), if_pos rfl,
    if_neg (Nat.succ_ne_zero depth), List.drop_one, List.tail_cons, peek_cons rfl,
    if_neg (by decide), skipSpace_cons rfl, Nat.add_sub_cancel, h]
  rfl

mutual

/-- A printed value reads back. -/
theorem reads_valueText : ∀ (v : Value φ) {depth : ℕ} {text : List Char},
    valueText F limits depth v = .ok text → v.Distinct → Reads F limits depth text v
  | .null, _, _, h, _ => by
      cases h
      exact .step fun fuel s _ _ => rfl
  | .bool true, _, _, h, _ => by
      cases h
      exact .step fun fuel s _ _ => rfl
  | .bool false, _, _, h, _ => by
      cases h
      exact .step fun fuel s _ _ => rfl
  | .int n, depth, text, h, _ => by
      rw [valueText] at h
      split at h
      · rename_i hdigits
        cases h
        refine .step fun fuel s hs _ => ?_
        rw [scanOnce_literal (valid_intLiteral n), scanScalar_int F limits hdigits hs]
      · cases h
  | .float x, depth, text, h, _ => by
      cases h
      refine .step fun fuel s hs _ => ?_
      rw [← scanScalar_number F limits x hs]
      cases x with
      | finite x =>
          obtain ⟨l, hvalid, -, htext⟩ := F.repr_literal x
          rw [numberText, ← htext, scanOnce_literal hvalid]
      | nan => exact scanOnce_scalar (by decide) (by decide) (by decide)
      | infinity => exact scanOnce_scalar (by decide) (by decide) (by decide)
      | negInfinity => exact scanOnce_scalar (by decide) (by decide) (by decide)
  | .str str, depth, text, h, _ => by
      cases h
      exact .step fun fuel s _ _ => scanOnce_string fuel depth str s
  | .arr [], depth, text, h, _ => by
      cases depth with
      | zero => cases h
      | succ depth =>
          cases h
          exact .step fun fuel s _ _ => rfl
  | .arr (item :: items), depth, text, h, hv => by
      obtain ⟨d, first, others, rfl, hfirst, hothers, rfl⟩ := valueText_arr h
      obtain ⟨hitem, hitems⟩ := hv
      refine .step fun fuel s _ hfuel => ?_
      simp only [List.length_cons, List.length_append, List.length_nil] at hfuel
      have htext : '[' :: (first ++ (others ++ [']'])) ++ s =
          '[' :: (first ++ (others ++ ']' :: s)) := by simp
      have hread := scanItems_itemsText items fuel s hothers hitems
        (reads_valueText item hfirst hitem) (by rw [List.length_append]; omega)
      rw [htext]
      exact scanOnce_items (valueText_opens hfirst) hread
  | .obj [], depth, text, h, _ => by
      cases depth with
      | zero => cases h
      | succ depth =>
          cases h
          exact .step fun fuel s _ _ => rfl
  | .obj ((k, v) :: fields), depth, text, h, hv => by
      obtain ⟨d, first, others, rfl, hfirst, hothers, rfl⟩ := valueText_obj h
      obtain ⟨hkeys, hitem, hfields⟩ := hv
      refine .step fun fuel s _ hfuel => ?_
      simp only [List.length_cons, List.length_append, List.length_nil] at hfuel
      have htext : '{' :: (stringText k ++ ':' :: ' ' :: (first ++ (others ++ ['}']))) ++ s =
          '{' :: (stringText k ++ ':' :: ' ' :: (first ++ (others ++ '}' :: s))) := by simp
      have hread := scanFields_fieldsText fields (d := []) (k := k) fuel s hothers hfields
        (valueText_opens hfirst) (reads_valueText v hfirst hitem)
        (by simp only [List.length_append]; omega)
      -- each entry is an assignment of a new key
      have hupdate : Fields.update (Fields.setItem [] k v) fields = (k, v) :: fields :=
        Fields.update_of_nodup hkeys
      rw [htext, scanOnce_fields hread, hupdate]

/-- The items of a list, behind the first. -/
theorem scanItems_itemsText : ∀ (items : List (Value φ)) {depth : ℕ} {item : Value φ}
    {first others : List Char} (fuel : ℕ) (s : List Char),
    itemsText F limits depth items = .ok others → itemsDistinct items →
    Reads F limits depth first item → 2 * (first ++ others).length + 2 ≤ fuel →
    scanItems F limits fuel depth (first ++ (others ++ ']' :: s)) = .ok (item :: items, s)
  | [], depth, item, first, others, fuel, s, h, _, hitem, hfuel => by
      cases h
      obtain ⟨fuel, rfl⟩ : ∃ n, fuel = n + 1 := ⟨fuel - 1, by omega⟩
      rw [List.append_nil] at hfuel
      rw [List.nil_append, scanItems, hitem fuel _ (stops_bracket s) (by omega)]
      simp only [Except.bind]
      rw [peek_cons rfl, if_pos rfl, after_cons rfl]
  | item' :: items, depth, item, first, others, fuel, s, h, hitems, hitem, hfuel => by
      obtain ⟨first', others', hfirst', hothers', rfl⟩ := itemsText_cons h
      obtain ⟨hitem', hitems⟩ := hitems
      obtain ⟨c, t, hopens, hspace, -⟩ := valueText_opens hfirst'
      simp only [List.length_cons, List.length_append] at hfuel
      obtain ⟨fuel, rfl⟩ : ∃ n, fuel = n + 1 := ⟨fuel - 1, by omega⟩
      -- the text of the item, and behind it what the scanner gets next
      have htext : ',' :: ' ' :: (first' ++ others') ++ ']' :: s =
          ',' :: ' ' :: (first' ++ (others' ++ ']' :: s)) := by simp
      have hread := scanItems_itemsText items fuel s hothers' hitems
        (reads_valueText item' hfirst' hitem') (by rw [List.length_append]; omega)
      rw [htext, scanItems, hitem fuel _ (stops_comma _) (by omega)]
      simp only [Except.bind]
      rw [peek_cons rfl, if_neg (by decide), if_pos rfl, after_cons rfl]
      rw [hopens, List.cons_append] at hread ⊢
      rw [skipSpace_blank hspace, hread]
      rfl

/-- The entries of an object, behind the first. -/
theorem scanFields_fieldsText : ∀ (fields : Fields φ) {depth : ℕ} {d : Fields φ} {k : Str}
    {v : Value φ} {first others : List Char} (fuel : ℕ) (s : List Char),
    fieldsText F limits depth fields = .ok others → fieldsDistinct fields →
    (∃ c t, first = c :: t ∧ Opens c) → Reads F limits depth first v →
    2 * (stringText k ++ first ++ others).length + 2 ≤ fuel →
    scanFields F limits fuel depth d
        (stringText k ++ ':' :: ' ' :: (first ++ (others ++ '}' :: s))) =
      .ok (Fields.update (d.setItem k v) fields, s)
  | [], depth, d, k, v, first, others, fuel, s, h, _, hopens, hv, hfuel => by
      cases h
      obtain ⟨c, t, hfirst, hspace, -⟩ := hopens
      simp only [List.length_append, List.length_nil] at hfuel
      obtain ⟨fuel, rfl⟩ : ∃ n, fuel = n + 1 := ⟨fuel - 1, by omega⟩
      have hkey := scanKey_stringText (s := t ++ '}' :: s) k hspace
      rw [← List.cons_append, ← hfirst] at hkey
      rw [List.nil_append, scanFields, hkey]
      simp only [Except.bind]
      rw [hv fuel _ (stops_brace s) (by omega)]
      simp only
      rw [peek_cons rfl, if_pos rfl, after_cons rfl]
      rfl
  | (k', v') :: fields, depth, d, k, v, first, others, fuel, s, h, hfields, hopens, hv, hfuel => by
      obtain ⟨first', others', hfirst', hothers', rfl⟩ := fieldsText_cons h
      obtain ⟨hv', hfields⟩ := hfields
      obtain ⟨c, t, hfirst, hspace, -⟩ := hopens
      simp only [List.length_cons, List.length_append] at hfuel
      obtain ⟨fuel, rfl⟩ : ∃ n, fuel = n + 1 := ⟨fuel - 1, by omega⟩
      have htext : ',' :: ' ' :: (stringText k' ++ ':' :: ' ' :: (first' ++ others')) ++ '}' :: s =
          ',' :: ' ' :: (stringText k' ++ ':' :: ' ' :: (first' ++ (others' ++ '}' :: s))) := by
        simp
      have hquote : stringText k' ++ ':' :: ' ' :: (first' ++ (others' ++ '}' :: s)) =
          '"' :: (k'.flatMap escapeUnit ++
            '"' :: ':' :: ' ' :: (first' ++ (others' ++ '}' :: s))) := by
        simp [stringText]
      have hread := scanFields_fieldsText fields (d := d.setItem k v) (k := k') fuel s hothers'
        hfields (valueText_opens hfirst') (reads_valueText v' hfirst' hv')
        (by simp only [List.length_append]; omega)
      rw [htext]
      have hkey := scanKey_stringText (s := t ++ ',' :: ' ' :: (stringText k' ++ ':' :: ' ' ::
        (first' ++ (others' ++ '}' :: s)))) k hspace
      rw [← List.cons_append, ← hfirst] at hkey
      rw [scanFields, hkey]
      simp only [Except.bind]
      rw [hv fuel _ (stops_comma _) (by omega)]
      simp only
      rw [peek_cons rfl, if_neg (by decide), if_pos rfl, after_cons rfl]
      rw [hquote] at hread ⊢
      rw [skipSpace_blank rfl, hread]
      rfl

end

/-! ### The printed text is ASCII -/

def Printable (s : List Char) : Prop := ∀ c ∈ s, 32 ≤ c.toNat ∧ c.toNat ≤ 126

theorem Printable.append {s t : List Char} (hs : Printable s) (ht : Printable t) :
    Printable (s ++ t) := fun c hc => (List.mem_append.mp hc).elim (hs c) (ht c)

theorem Printable.cons {c : Char} {s : List Char} (hc : 32 ≤ c.toNat ∧ c.toNat ≤ 126)
    (hs : Printable s) : Printable (c :: s) := fun c' hc' =>
  (List.mem_cons.mp hc').elim (fun h => h ▸ hc) (hs c')

theorem printable_nil : Printable [] := fun _ hc => absurd hc List.not_mem_nil

/-- A fixed text is tested character by character. -/
theorem printable_of_all {s : List Char}
    (h : (s.all fun c => 32 ≤ c.toNat ∧ c.toNat ≤ 126) = true) : Printable s :=
  fun c hc => by simpa using List.all_eq_true.mp h c hc

theorem Literal.Digits.printable {ds : List Char} (h : Literal.Digits ds) : Printable ds := by
  intro c hc
  have hdigit := isDigit_iff.mp (h.2 c hc)
  omega

theorem Literal.Valid.printable {l : Literal} (h : l.Valid) : Printable l.text := by
  have hsign : Printable (if l.negative then ['-'] else []) := by
    split
    · exact printable_nil.cons (by decide)
    · exact printable_nil
  have hwhole : Printable l.whole := by
    rcases h.whole with hw | ⟨hds, -⟩
    · rw [hw]
      exact printable_nil.cons (by decide)
    · exact hds.printable
  have hfraction : Printable l.fraction := by
    rcases h.fraction with hf | ⟨ds, hf, hds⟩
    · rw [hf]
      exact printable_nil
    · rw [hf]
      exact hds.printable.cons (by decide)
  have hexponent : Printable l.exponent := by
    rcases h.exponent with he | ⟨e, sign, ds, he, hchar, hsign, hds⟩
    · rw [he]
      exact printable_nil
    · have hmark : 32 ≤ e.toNat ∧ e.toNat ≤ 126 := by
        rcases hchar with rfl | rfl
        · decide
        · decide
      have hsign : Printable sign := by
        rcases hsign with rfl | rfl | rfl
        · exact printable_nil
        · exact printable_nil.cons (by decide)
        · exact printable_nil.cons (by decide)
      rw [he]
      exact (hsign.cons hmark).append hds.printable
  exact ((hsign.append hwhole).append hfraction).append hexponent

theorem printable_hexChar {n : ℕ} (h : n < 16) :
    32 ≤ (hexChar 'a' n).toNat ∧ (hexChar 'a' n).toNat ≤ 126 := by
  interval_cases n
  all_goals decide

theorem printable_stringText (str : Str) : Printable (stringText str) := by
  have hunit (u : UInt16) : Printable (escapeUnit u) := by
    have hu : u.toNat < 65536 := u.toNat_lt
    simp only [escapeUnit]
    iterate 7
      split
      · exact (printable_nil.cons (by decide)).cons (by decide)
    split
    · refine printable_nil.cons ?_
      rw [toNat_ofNat (by omega)]
      assumption
    · exact ((((printable_nil.cons (printable_hexChar (by omega))).cons
        (printable_hexChar (by omega))).cons (printable_hexChar (by omega))).cons
        (printable_hexChar (by omega))).cons (by decide) |>.cons (by decide)
  have hbody : Printable (str.flatMap escapeUnit) := by
    intro c hc
    obtain ⟨u, -, hc⟩ := List.mem_flatMap.mp hc
    exact hunit u c hc
  exact (hbody.cons (by decide)).append (printable_nil.cons (by decide))

theorem printable_numberText (x : Number φ) : Printable (numberText F x) := by
  cases x with
  | finite x =>
      obtain ⟨l, hvalid, -, htext⟩ := F.repr_literal x
      rw [numberText, ← htext]
      exact hvalid.printable
  | _ => exact printable_of_all rfl

mutual

theorem printable_valueText : ∀ (v : Value φ) {depth : ℕ} {text : List Char},
    valueText F limits depth v = .ok text → Printable text
  | .null, _, _, h => by
      cases h
      exact printable_of_all rfl
  | .bool true, _, _, h => by
      cases h
      exact printable_of_all rfl
  | .bool false, _, _, h => by
      cases h
      exact printable_of_all rfl
  | .int n, _, _, h => by
      rw [valueText] at h
      split at h
      · cases h
        exact (valid_intLiteral n).printable
      · cases h
  | .float x, _, _, h => by
      cases h
      exact printable_numberText x
  | .str str, _, _, h => by
      cases h
      exact printable_stringText str
  | .arr [], depth, _, h => by
      cases depth with
      | zero => cases h
      | succ depth =>
          cases h
          exact printable_of_all rfl
  | .arr (item :: items), _, _, h => by
      obtain ⟨d, first, others, rfl, hfirst, hothers, rfl⟩ := valueText_arr h
      have hclose : Printable [']'] := printable_of_all rfl
      exact ((printable_valueText item hfirst).append
        ((printable_itemsText items hothers).append hclose)).cons (by decide)
  | .obj [], depth, _, h => by
      cases depth with
      | zero => cases h
      | succ depth =>
          cases h
          exact printable_of_all rfl
  | .obj ((k, v) :: fields), _, _, h => by
      obtain ⟨d, first, others, rfl, hfirst, hothers, rfl⟩ := valueText_obj h
      have hclose : Printable ['}'] := printable_of_all rfl
      have hvalue := (printable_valueText v hfirst).append
        ((printable_fieldsText fields hothers).append hclose)
      exact ((printable_stringText k).append ((hvalue.cons (by decide)).cons (by decide))).cons
        (by decide)

theorem printable_itemsText : ∀ (items : List (Value φ)) {depth : ℕ} {text : List Char},
    itemsText F limits depth items = .ok text → Printable text
  | [], _, _, h => by
      cases h
      exact printable_nil
  | item :: items, _, _, h => by
      obtain ⟨first, others, hfirst, hothers, rfl⟩ := itemsText_cons h
      exact (((printable_valueText item hfirst).append (printable_itemsText items hothers)).cons
        (by decide)).cons (by decide)

theorem printable_fieldsText : ∀ (fields : Fields φ) {depth : ℕ} {text : List Char},
    fieldsText F limits depth fields = .ok text → Printable text
  | [], _, _, h => by
      cases h
      exact printable_nil
  | (k, v) :: fields, _, _, h => by
      obtain ⟨first, others, hfirst, hothers, rfl⟩ := fieldsText_cons h
      have hvalue := (printable_valueText v hfirst).append (printable_fieldsText fields hothers)
      exact (((printable_stringText k).append ((hvalue.cons (by decide)).cons (by decide))).cons
        (by decide)).cons (by decide)

end

/-! ### The round trip -/

/-- `json.loads(json.dumps(v)) == v`. -/
theorem loads_dumps {v : Value φ} {text : List Char} (h : dumps F limits v = .ok text)
    (hv : v.Distinct) : loads F limits text = .ok v := by
  obtain ⟨c, t, hopens, hspace, -⟩ := valueText_opens h
  have hread := reads_valueText v h hv (2 * text.length + 1) [] (fun c hc => by cases hc)
    (Nat.le_refl _)
  have hskip : skipSpace text = text := by
    rw [hopens]
    exact skipSpace_cons hspace
  have hbom : text.head? ≠ some '\ufeff' := by
    intro hc
    have hprintable := (printable_valueText v h) _ (List.mem_of_mem_head? hc)
    exact absurd hprintable.2 (by decide)
  rw [List.append_nil] at hread
  rw [loads, if_neg hbom, hskip, hread]
  rfl

end Values

end TranscriptionApi.Lib.Json
