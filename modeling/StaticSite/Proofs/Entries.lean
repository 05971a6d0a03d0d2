import Mathlib
import StaticSite.Proofs.ByteOrder
import StaticSite.Proofs.Fences
import StaticSite.Proofs.KeyTexts

/-! The entries of a page's metadata and the pairs of the mapping that they come from. An entry is
lost exactly if its key is spelled as another one of the mapping is, and of two such keys one is a
text and the other is none. -/
namespace StaticSite

namespace Text

variable {s t u : Text}

theorem less_trans (hst : less s t = true) (htu : less t u = true) : less s u = true :=
  less_iff_encode_lt.2 (List.lt_trans (less_iff_encode_lt.1 hst) (less_iff_encode_lt.1 htu))

theorem less_irrefl (t : Text) : less t t = false :=
  Bool.eq_false_iff.2 fun h => List.lt_irrefl _ (less_iff_encode_lt.1 h)

theorem less_of_ne (hne : s ≠ t) (hnot : ¬less s t = true) : less t s = true := by
  have hle := List.not_lt.1 fun h => hnot (less_iff_encode_lt.2 h)
  exact less_iff_encode_lt.2 (Std.lt_of_le_of_ne hle fun h => hne (Utf8.encode_inj h).symm)

end Text

namespace FrontMatter

open Yaml

variable {entries : List (Text × Value)} {pairs : List (Value × Value)} {key key' : Value}
  {k t : Text} {v : Value}

/-! ### Entries in their order -/

/-- Entries in the order of their keys, each key once. -/
def Sorted (entries : List (Text × Value)) : Prop :=
  entries.Pairwise fun a b => Text.less a.1 b.1 = true

theorem Sorted.nodup_keys (h : Sorted entries) : (entries.map (·.1)).Nodup := by
  refine List.pairwise_map.2 (h.imp fun {a b} hless heq => ?_)
  rw [heq, Text.less_irrefl] at hless
  cases hless

theorem mem_of_mem_insertEntry {entry : Text × Value} (h : entry ∈ insertEntry k v entries) :
    entry = (k, v) ∨ entry ∈ entries := by
  induction entries with
  | nil => exact .inl (List.mem_singleton.1 h)
  | cons first rest ih =>
    obtain ⟨k', v'⟩ := first
    rw [insertEntry] at h
    split_ifs at h
    · exact (List.mem_cons.1 h).imp_right (List.mem_cons_of_mem _)
    · exact List.mem_cons.1 h
    · cases List.mem_cons.1 h with
      | inl hfirst => exact .inr (hfirst ▸ List.mem_cons_self)
      | inr hrest => exact (ih hrest).imp_right (List.mem_cons_of_mem _)

theorem Sorted.insertEntry (h : Sorted entries) (k : Text) (v : Value) :
    Sorted (insertEntry k v entries) := by
  induction entries with
  | nil => exact List.pairwise_singleton _ _
  | cons first rest ih =>
    obtain ⟨k', v'⟩ := first
    obtain ⟨hfirst, hrest⟩ := List.pairwise_cons.1 h
    rw [Sorted, FrontMatter.insertEntry]
    split_ifs with heq hless
    · subst heq
      exact List.pairwise_cons.2 ⟨hfirst, hrest⟩
    · refine List.pairwise_cons.2 ⟨fun entry hentry => ?_, h⟩
      cases List.mem_cons.1 hentry with
      | inl heq => exact heq ▸ hless
      | inr hlater => exact Text.less_trans hless (hfirst entry hlater)
    · refine List.pairwise_cons.2 ⟨fun entry hentry => ?_, ih hrest⟩
      cases mem_of_mem_insertEntry hentry with
      | inl hnew => exact hnew ▸ Text.less_of_ne heq hless
      | inr hold => exact hfirst entry hold

theorem insertEntry_perm (hnew : k ∉ entries.map (·.1)) (v : Value) :
    (insertEntry k v entries).Perm ((k, v) :: entries) := by
  induction entries with
  | nil => rfl
  | cons first rest ih =>
    obtain ⟨k', v'⟩ := first
    rw [List.map_cons, List.mem_cons, not_or] at hnew
    rw [insertEntry, if_neg hnew.1]
    split_ifs
    · rfl
    · exact ((ih hnew.2).cons _).trans (.swap _ _ _)

theorem lookup_cons (t k : Text) (v : Value) (entries : List (Text × Value)) :
    ((k, v) :: entries).lookup t = if t = k then some v else entries.lookup t := by
  rw [List.lookup_cons]
  by_cases h : t = k
  · simp [h]
  · simp [h, beq_eq_false_iff_ne.2 h]

theorem lookup_insertEntry (t k : Text) (v : Value) (entries : List (Text × Value)) :
    (insertEntry k v entries).lookup t = if t = k then some v else entries.lookup t := by
  induction entries with
  | nil => exact lookup_cons t k v []
  | cons first rest ih =>
    obtain ⟨k', v'⟩ := first
    rw [insertEntry, lookup_cons]
    by_cases heq : k = k'
    · rw [if_pos heq, lookup_cons, heq]
      by_cases hsame : t = k' <;> simp [hsame]
    · rw [if_neg heq]
      by_cases hless : Text.less k k'
      · rw [if_pos hless, lookup_cons, lookup_cons]
      · rw [if_neg hless, lookup_cons, ih]
        by_cases hsame : t = k
        · rw [if_pos hsame, if_pos hsame, if_neg (hsame ▸ heq)]
        · rw [if_neg hsame, if_neg hsame]

/-! ### Entries of pairs -/

theorem ofPairs_concat (entries : List (Text × Value)) (k : Text) (v : Value) :
    (ofPairs (entries ++ [(k, v)])).entries = insertEntry k v (ofPairs entries).entries := by
  simp [ofPairs]

theorem sorted_ofPairs (entries : List (Text × Value)) : Sorted (ofPairs entries).entries := by
  induction entries using List.reverseRecOn with
  | nil => exact .nil
  | append_singleton entries last ih =>
    rw [ofPairs_concat]
    exact ih.insertEntry _ _

theorem get?_ofPairs (entries : List (Text × Value)) (t : Text) :
    (ofPairs entries).get? t = entries.reverse.lookup t := by
  induction entries using List.reverseRecOn with
  | nil => rfl
  | append_singleton entries last ih =>
    rw [get?, ofPairs_concat, lookup_insertEntry, ← get?, ih, List.reverse_append,
      List.reverse_singleton, List.singleton_append, lookup_cons]

theorem ofPairs_perm_iff : (ofPairs entries).entries.Perm entries ↔ (entries.map (·.1)).Nodup := by
  refine ⟨fun hperm => (hperm.map _).nodup_iff.1 (sorted_ofPairs entries).nodup_keys,
    fun hnodup => ?_⟩
  induction entries using List.reverseRecOn with
  | nil => rfl
  | append_singleton entries last ih =>
    rw [List.map_append, List.nodup_append_comm, List.map_singleton, List.singleton_append,
      List.nodup_cons] at hnodup
    have hperm := ih hnodup.2
    have hnew : last.1 ∉ (ofPairs entries).entries.map (·.1) :=
      fun hmem => hnodup.1 ((hperm.map _).mem_iff.1 hmem)
    rw [ofPairs_concat]
    exact (insertEntry_perm hnew last.2).trans
      ((hperm.cons last).trans (List.perm_append_singleton last entries).symm)

/-- What a pair of a mapping comes to: an entry under the text of its key and with its value. -/
def Gives (pair : Value × Value) (entry : Text × Value) : Prop :=
  keyText pair.1 = .ok entry.1 ∧ entry.2 = pair.2

theorem gives_of_ofMapping (h : ofMapping pairs = .ok entries) :
    List.Forall₂ Gives pairs entries := by
  induction pairs generalizing entries with
  | nil =>
    cases h
    exact .nil
  | cons pair pairs ih =>
    obtain ⟨key, v⟩ := pair
    rw [ofMapping] at h
    split at h
    · cases h
    next k hkey =>
      cases hrest : ofMapping pairs with
      | error reason =>
        rw [hrest] at h
        cases h
      | ok rest =>
        rw [hrest] at h
        cases h
        exact .cons ⟨hkey, rfl⟩ (ih hrest)

theorem texts_of_gives (h : List.Forall₂ Gives pairs entries) :
    pairs.map (fun pair => keyText pair.1) = entries.map fun entry => .ok entry.1 := by
  induction h with
  | nil => rfl
  | cons hpair _ ih => rw [List.map_cons, List.map_cons, ih, hpair.1]

theorem gives_unique {entries' : List (Text × Value)} (h : List.Forall₂ Gives pairs entries)
    (h' : List.Forall₂ Gives pairs entries') : entries = entries' := by
  refine List.right_unique_forall₂' (fun pair a b ha hb => ?_) h h'
  exact Prod.ext (Except.ok.inj (ha.1.symm.trans hb.1)) (ha.2.trans hb.2.symm)

/-! ### Keys of one spelling -/

theorem text_ne_of_bool (b : Bool) {n : Number} (hn : n.WellFormed) :
    keyText (.bool b) ≠ .ok n.text := by
  cases b with
  | false =>
    exact fun h => Number.text_ne hn (by decide) (by decide) (by decide) (Except.ok.inj h).symm
  | true =>
    exact fun h => Number.text_ne hn (by decide) (by decide) (by decide) (Except.ok.inj h).symm

theorem eq_of_keyText (hkey : key.NumberFormed) (hkey' : key'.NumberFormed)
    (h : keyText key = .ok t) (h' : keyText key' = .ok t) (hne : key ≠ .string t)
    (hne' : key' ≠ .string t) : key = key' := by
  cases key with
  | string s => exact absurd (congrArg Value.string (Except.ok.inj h)) hne
  | bool b =>
    cases key' with
    | string s => exact absurd (congrArg Value.string (Except.ok.inj h')) hne'
    | bool b' => cases b <;> cases b' <;> first | rfl | (rw [← h'] at h; cases h)
    | number n => exact absurd (h.trans h'.symm) (text_ne_of_bool b hkey')
    | null | sequence _ | mapping _ | tagged _ _ => cases h'
  | number n =>
    cases key' with
    | string s => exact absurd (congrArg Value.string (Except.ok.inj h')) hne'
    | bool b => exact absurd (h'.trans h.symm) (text_ne_of_bool b hkey)
    | number n' =>
      exact congrArg Value.number (Number.text_inj hkey hkey' (Except.ok.inj (h.trans h'.symm)))
    | null | sequence _ | mapping _ | tagged _ _ => cases h'
  | null | sequence _ | mapping _ | tagged _ _ => cases h

theorem same_of_keyText (h : keyText key = .ok t) : key.same key = true := by
  cases key with
  | string s => simp [Value.same]
  | bool b => simp [Value.same]
  | number n => cases n <;> simp [Value.same, Number.same]
  | null | sequence _ | mapping _ | tagged _ _ => cases h

theorem nodup_keys_iff (hapart : KeysApart pairs) (hgives : List.Forall₂ Gives pairs entries) :
    (entries.map (·.1)).Nodup ↔
      ∀ t, .string t ∈ pairs.map (·.1) → ∀ key ∈ pairs.map (·.1), keyText key = .ok t →
        key = .string t := by
  have htexts := texts_of_gives hgives
  have hnodup : (entries.map (·.1)).Nodup ↔ (pairs.map fun pair => keyText pair.1).Nodup := by
    rw [htexts, ← List.nodup_map_iff fun _ _ => Except.ok.inj, List.map_map]
    rfl
  rw [hnodup]
  constructor
  · intro hne t ht key hkey htext
    obtain ⟨p, hp, hstring⟩ := List.mem_map.1 ht
    obtain ⟨q, hq, rfl⟩ := List.mem_map.1 hkey
    have hsame : q = p := List.inj_on_of_nodup_map hne hq hp (by rw [htext, hstring, keyText])
    rw [hsame, hstring]
  · intro hspelled
    refine List.pairwise_map.2 ?_
    refine hapart.apart.imp_of_mem fun {p q} hp hq hsame htext => ?_
    obtain ⟨entry, -, hentry⟩ := List.mem_map.1 (htexts ▸ List.mem_map_of_mem hp)
    have hp' : keyText p.1 = .ok entry.1 := hentry.symm
    have hq' : keyText q.1 = .ok entry.1 := htext ▸ hp'
    have heq : p.1 = q.1 := by
      by_cases hstring : p.1 = .string entry.1
      · rw [hstring, hspelled _ (hstring ▸ List.mem_map_of_mem hp) q.1 (List.mem_map_of_mem hq) hq']
      · by_cases hstring' : q.1 = .string entry.1
        · rw [hstring', hspelled _ (hstring' ▸ List.mem_map_of_mem hq) p.1 (List.mem_map_of_mem hp)
            hp']
        · exact eq_of_keyText (hapart.formed p hp) (hapart.formed q hq) hp' hq' hstring hstring'
    rw [heq, same_of_keyText hq'] at hsame
    cases hsame

theorem load?_nil : load? [] = some .null := by rfl

theorem exists_gives {block : Text} {m : FrontMatter}
    (hload : load? (normalize block) = some (.mapping pairs)) (h : ofBlock block = .ok m) :
    ∃ entries, List.Forall₂ Gives pairs entries ∧ m = ofPairs entries := by
  rw [ofBlock] at h
  split at h
  next hempty =>
    rw [hempty, load?_nil] at hload
    cases hload
  · rw [hload] at h
    dsimp only at h
    cases hmapping : ofMapping pairs with
    | error reason =>
      rw [hmapping] at h
      cases h
    | ok entries =>
      rw [hmapping] at h
      cases h
      exact ⟨entries, gives_of_ofMapping hmapping, rfl⟩

end FrontMatter

namespace Document

open FrontMatter

/-- The metadata of a document whose block is a mapping. Each pair gives an entry under the text of
its key and with its value, and of some entries under one text the last counts. They are all kept
exactly if no key that is a text is spelled as another key of the mapping is, which is a truth value
or a number then. -/
theorem entries_of_mapping {t block rest : Text} {pairs : List (Yaml.Value × Yaml.Value)}
    {document : Document} (hopening : opening t = .fenced block rest)
    (hload : Yaml.load? (normalize block) = some (.mapping pairs)) (h : ofText t = .ok document) :
    ∃ m entries, document.metadata = some m ∧ List.Forall₂ Gives pairs entries ∧ Sorted m.entries ∧
      (∀ name, m.get? name = entries.reverse.lookup name) ∧
      (m.entries.Perm entries ↔
        ∀ name, .string name ∈ pairs.map (·.1) → ∀ key ∈ pairs.map (·.1), keyText key = .ok name →
          key = .string name) := by
  rw [ofText_of_fenced hopening, ofParts] at h
  split at h
  · cases h
  next m hblock =>
    cases h
    obtain ⟨entries, hgives, rfl⟩ := exists_gives hload hblock
    refine ⟨ofPairs entries, entries, rfl, hgives, sorted_ofPairs entries, get?_ofPairs entries, ?_⟩
    rw [ofPairs_perm_iff, nodup_keys_iff (Yaml.keysApart_of_load? hload) hgives]

def twoKeys (n : Int) (k x y : Text) : List (Yaml.Value × Yaml.Value) :=
  [(.number (.int n), .string x), (.string k, .string y)]

theorem load?_of_match {t k x y : Text} {n : Int}
    (h : (match Yaml.load? t with
      | some (.mapping [(.number m, .string x'), (.string k', .string y')]) =>
        decide (m = .int n ∧ x' = x ∧ k' = k ∧ y' = y)
      | _ => false) = true) :
    Yaml.load? t = some (.mapping (twoKeys n k x y)) := by
  split at h
  next hload =>
    obtain ⟨rfl, rfl, rfl, rfl⟩ := of_decide_eq_true h
    exact hload
  · cases h

theorem ofText_twoKeys {t block rest k x y : Text} {n : Int}
    (hopening : opening t = .fenced block rest)
    (hload : Yaml.load? (normalize block) = some (.mapping (twoKeys n k x y))) :
    ofText t = .ok ⟨some (ofPairs [(Text.ofInt n, .string x), (k, .string y)]),
      dropLineEnd rest⟩ := by
  have hne : normalize block ≠ [] := by
    intro hempty
    rw [hempty, load?_nil] at hload
    cases hload
  rw [ofText_of_fenced hopening, ofParts, ofBlock, if_neg hne, hload]
  rfl

theorem gives_twoKeys (n : Int) (k x y : Text) :
    List.Forall₂ Gives (twoKeys n k x y) [(Text.ofInt n, .string x), (k, .string y)] :=
  .cons ⟨rfl, rfl⟩ (.cons ⟨rfl, rfl⟩ .nil)

def numberedText : Text := "---\n1: a\n\"2\": b\n---\nx".toList

/-- A number and a text that is spelled as another number. -/
theorem numberedText_kept :
    ∃ m, ofText numberedText = .ok ⟨some m, ['x']⟩ ∧
      m.entries.Perm [(['1'], .string ['a']), (['2'], .string ['b'])] := by
  have hopening : opening numberedText = .fenced "\n1: a\n\"2\": b\n".toList ['\n', 'x'] := by
    decide
  have hload : Yaml.load? (normalize "\n1: a\n\"2\": b\n".toList) =
      some (.mapping (twoKeys 1 ['2'] ['a'] ['b'])) :=
    load?_of_match (by decide +kernel)
  have htext := ofText_twoKeys hopening hload
  obtain ⟨m, entries, hm, hgives, -, -, hkept⟩ := entries_of_mapping hopening hload htext
  obtain rfl := Option.some.inj hm
  obtain rfl := gives_unique hgives (gives_twoKeys 1 ['2'] ['a'] ['b'])
  refine ⟨_, htext, hkept.2 fun name hname key hkey htext => ?_⟩
  simp only [twoKeys, List.map_cons, List.map_nil, List.mem_cons, List.not_mem_nil, or_false,
    reduceCtorEq, false_or, Yaml.Value.string.injEq] at hname hkey
  subst hname
  cases hkey with
  | inl hnumber =>
    rw [hnumber] at htext
    exact absurd (Except.ok.inj htext) (by decide)
  | inr htext => exact htext

def collidingText : Text := "---\n1: a\n\"1\": b\n---\nx".toList

/-- A number and its spelling: the keys are different, but the later entry takes the place of the
first. -/
theorem collidingText_lost :
    ofText collidingText = .ok ⟨some ⟨[(['1'], .string ['b'])]⟩, ['x']⟩ ∧
    ¬∀ (t block rest : Text) (pairs : List (Yaml.Value × Yaml.Value)) (document : Document),
      opening t = .fenced block rest →
      Yaml.load? (normalize block) = some (.mapping pairs) →
      (pairs.Pairwise fun p q => p.1.same q.1 = false) →
      ofText t = .ok document → ∃ m entries, document.metadata = some m ∧
      List.Forall₂ Gives pairs entries ∧
        m.entries.Perm entries := by
  have hopening : opening collidingText = .fenced "\n1: a\n\"1\": b\n".toList ['\n', 'x'] := by
    decide
  have hload : Yaml.load? (normalize "\n1: a\n\"1\": b\n".toList) =
      some (.mapping (twoKeys 1 ['1'] ['a'] ['b'])) :=
    load?_of_match (by decide +kernel)
  have htext := ofText_twoKeys hopening hload
  refine ⟨htext, fun hclaim => ?_⟩
  obtain ⟨m, entries, hm, hgives, hperm⟩ :=
    hclaim _ _ _ _ _ hopening hload (Yaml.keysApart_of_load? hload).apart htext
  obtain rfl := Option.some.inj hm
  obtain rfl := gives_unique hgives (gives_twoKeys 1 ['1'] ['a'] ['b'])
  exact absurd hperm.length_eq (by decide)

end Document
end StaticSite
