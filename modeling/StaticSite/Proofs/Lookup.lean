import Mathlib.Data.List.Nodup
import Mathlib.Data.List.Perm.Subperm
import StaticSite.FileSystem
import StaticSite.Proofs.PathParts

/-! Looking paths up. What a lookup finds stands at the place it gives, and the real path of what
was found leads there again. Without links a lookup follows the names alone. -/
namespace StaticSite

namespace FileSystem

/-- What the system keeps true of its files: no place has two nodes, only directories hold
something, and names are names. The working directory may be gone. -/
structure WellFormed (fs : FileSystem) : Prop where
  once : (fs.nodes.map (·.1)).Nodup
  parent : ∀ {p : Place} {name : Text} {n : Node}, fs.at? (p ++ [name]) = some n →
    ∃ t, fs.at? p = some (.directory t)
  names : ∀ e ∈ fs.nodes, ValidNames e.1

def LinkFree (fs : FileSystem) : Prop := ∀ e ∈ fs.nodes, e.2.isLink = false

instance (fs : FileSystem) : Decidable fs.LinkFree :=
  inferInstanceAs (Decidable (∀ e ∈ fs.nodes, e.2.isLink = false))

variable {fs : FileSystem} {p q : Place} {n : Node} {name : Text} {names : List Text}

@[simp] theorem at?_nil (fs : FileSystem) : fs.at? [] = some (.directory 0) := rfl

theorem at?_of_ne_nil (fs : FileSystem) (h : p ≠ []) : fs.at? p = fs.nodes.lookup p := if_neg h

theorem mem_of_lookup {l : List (Place × Node)} (h : l.lookup p = some n) : (p, n) ∈ l := by
  induction l with
  | nil => simp at h
  | cons e l ih =>
    obtain ⟨q, m⟩ := e
    rw [List.lookup_cons] at h
    cases hpq : p == q with
    | true =>
      rw [hpq] at h
      simp_all
    | false =>
      rw [hpq] at h
      exact List.mem_cons_of_mem _ (ih h)

theorem lookup_of_mem {l : List (Place × Node)} (hl : (l.map (·.1)).Nodup) (h : (p, n) ∈ l) :
    l.lookup p = some n := by
  induction l with
  | nil => simp at h
  | cons e l ih =>
    obtain ⟨q, m⟩ := e
    rw [List.map_cons, List.nodup_cons] at hl
    rw [List.lookup_cons]
    cases List.mem_cons.1 h with
    | inl he =>
      obtain ⟨rfl, rfl⟩ := Prod.mk.inj he
      simp
    | inr hmem =>
      have hpq : p ≠ q := by
        intro heq
        subst heq
        exact hl.1 (List.mem_map.2 ⟨_, hmem, rfl⟩)
      simp [beq_eq_false_iff_ne.2 hpq, ih hl.2 hmem]

theorem mem_nodes_of_at? (hp : p ≠ []) (h : fs.at? p = some n) : (p, n) ∈ fs.nodes := by
  rw [at?_of_ne_nil fs hp] at h
  exact mem_of_lookup h

theorem WellFormed.at?_of_mem (h : fs.WellFormed) (hp : p ≠ []) (hmem : (p, n) ∈ fs.nodes) :
    fs.at? p = some n := by
  rw [at?_of_ne_nil fs hp]
  exact lookup_of_mem h.once hmem

/-- It is enough to look at each node once. -/
theorem wellFormed_iff :
    fs.WellFormed ↔ (fs.nodes.map (·.1)).Nodup ∧
      ∀ e ∈ fs.nodes, ValidNames e.1 ∧ (fs.at? e.1.dropLast).any Node.isDirectory = true := by
  constructor
  · intro h
    refine ⟨h.once, fun e he => ⟨h.names e he, ?_⟩⟩
    obtain ⟨p, n⟩ := e
    cases List.eq_nil_or_concat' p with
    | inl heq =>
      subst heq
      rfl
    | inr hcase =>
      obtain ⟨q, name, rfl⟩ := hcase
      obtain ⟨t, ht⟩ := h.parent (h.at?_of_mem (by simp) he)
      simp [ht, Node.isDirectory]
  · intro hex
    obtain ⟨honce, hnodes⟩ := hex
    refine ⟨honce, ?_, fun e he => (hnodes e he).1⟩
    intro p name n hn
    have hdir := (hnodes _ (mem_nodes_of_at? (by simp) hn)).2
    rw [List.dropLast_concat] at hdir
    cases hp : fs.at? p with
    | none => simp [hp] at hdir
    | some m =>
      cases m with
      | directory t => exact ⟨t, rfl⟩
      | file | link => simp [hp, Node.isDirectory] at hdir

instance (fs : FileSystem) : Decidable fs.WellFormed := decidable_of_iff _ wellFormed_iff.symm

theorem WellFormed.validNames (h : fs.WellFormed) (hp : fs.at? p = some n) : ValidNames p := by
  by_cases hne : p = []
  · subst hne
    intro m hm
    simp at hm
  · exact h.names _ (mem_nodes_of_at? hne hp)

theorem WellFormed.validName (h : fs.WellFormed) (hp : fs.at? (p ++ [name]) = some n) :
    ValidName name :=
  h.validNames hp name (by simp)

theorem WellFormed.directory_above (h : fs.WellFormed) (hne : names ≠ [])
    (hn : fs.at? (p ++ names) = some n) :
    ∃ t, fs.at? p = some (.directory t) := by
  induction names using List.reverseRecOn generalizing n with
  | nil => exact absurd rfl hne
  | append_singleton ns m ih =>
    rw [← List.append_assoc] at hn
    obtain ⟨t, ht⟩ := h.parent hn
    by_cases hns : ns = []
    · subst hns
      exact ⟨t, by simpa using ht⟩
    · exact ih hns ht

theorem WellFormed.none_below (h : fs.WellFormed) (hp : fs.at? p = none) :
    fs.at? (p ++ names) = none := by
  by_cases hne : names = []
  · subst hne
    simpa using hp
  cases hn : fs.at? (p ++ names) with
  | none => rfl
  | some n =>
    obtain ⟨t, ht⟩ := h.directory_above hne hn
    simp [hp] at ht

theorem WellFormed.directory_dropLast (h : fs.WellFormed) {t : Nat}
    (hp : fs.at? p = some (.directory t)) :
    ∃ u, fs.at? p.dropLast = some (.directory u) := by
  cases List.eq_nil_or_concat' p with
  | inl heq =>
    subst heq
    exact ⟨0, rfl⟩
  | inr hcase =>
    obtain ⟨q, name, rfl⟩ := hcase
    simpa using h.parent hp

/-- A place is not deeper than there are nodes, for each step down to it is one. -/
theorem WellFormed.length_le_nodes (h : fs.WellFormed) (hp : fs.at? p = some n) :
    p.length ≤ fs.nodes.length := by
  have hlength {i : Nat} (hi : i < p.length) : (p.take (i + 1)).length = i + 1 := by
    rw [List.length_take]
    omega
  have hnodup : ((List.range p.length).map fun i => p.take (i + 1)).Nodup := by
    refine List.Nodup.map_on ?_ List.nodup_range
    intro i hi j hj hij
    have hlen := congrArg List.length hij
    rw [hlength (List.mem_range.1 hi), hlength (List.mem_range.1 hj)] at hlen
    omega
  have hsub : ((List.range p.length).map fun i => p.take (i + 1)) ⊆ fs.nodes.map (·.1) := by
    intro a ha
    obtain ⟨i, hi, rfl⟩ := List.mem_map.1 ha
    have hne : p.take (i + 1) ≠ [] :=
      List.ne_nil_of_length_pos (by rw [hlength (List.mem_range.1 hi)]; omega)
    obtain ⟨m, hm⟩ : ∃ m, fs.at? (p.take (i + 1)) = some m := by
      by_cases hr : p.drop (i + 1) = []
      · have htake := List.take_append_drop (i + 1) p
        rw [hr, List.append_nil] at htake
        exact ⟨n, by rw [htake, hp]⟩
      · rw [← List.take_append_drop (i + 1) p] at hp
        obtain ⟨t, ht⟩ := h.directory_above hr hp
        exact ⟨_, ht⟩
    exact List.mem_map.2 ⟨_, mem_nodes_of_at? hne hm, rfl⟩
  simpa using (hnodup.subperm hsub).length_le

theorem LinkFree.isLink_eq_false (h : fs.LinkFree) (hp : fs.at? p = some n) : n.isLink = false := by
  by_cases hne : p = []
  · subst hne
    rw [at?_nil, Option.some.injEq] at hp
    exact hp ▸ rfl
  · exact h _ (mem_nodes_of_at? hne hp)

theorem directory_start {t : Nat} (hp : fs.at? p = some (.directory t)) (absolute : Bool) :
    ∃ u, fs.at? (if absolute then [] else p) = some (.directory u) := by
  cases absolute with
  | true => exact ⟨0, rfl⟩
  | false => exact ⟨t, hp⟩

theorem WellFormed.at?_of_walk (h : fs.WellFormed) {followLast : Bool} {links t : Nat}
    (hp : fs.at? p = some (.directory t))
    (hw : fs.walk followLast links p names = .ok (.found q n)) :
    fs.at? q = some n ∧ (followLast = true → n.isLink = false) := by
  fun_induction FileSystem.walk fs followLast links p names generalizing t with
  | case1 =>
    simp only [hp, Option.getD_some, Except.ok.injEq, Spot.found.injEq] at hw
    obtain ⟨rfl, rfl⟩ := hw
    exact ⟨hp, fun _ => rfl⟩
  | case2 => simp_all
  | case3 links p rest _ ih =>
    obtain ⟨u, hu⟩ := h.directory_dropLast hp
    exact ih hu hw
  | case4 => simp at hw
  | case5 => simp at hw
  | case6 => simp at hw
  | case7 links p name rest _ _ _ t' hat ih => exact ih hat hw
  | case8 =>
    simp only [Except.ok.injEq, Spot.found.injEq] at hw
    obtain ⟨rfl, rfl⟩ := hw
    exact ⟨by assumption, fun _ => rfl⟩
  | case9 => simp at hw
  | case10 links p name rest _ _ _ target hat hlast =>
    simp only [Except.ok.injEq, Spot.found.injEq] at hw
    obtain ⟨rfl, rfl⟩ := hw
    refine ⟨hat, fun hf => ?_⟩
    simp [hf] at hlast
  | case11 => simp at hw
  | case12 => simp at hw
  | case13 =>
    rename_i ih
    obtain ⟨u, hu⟩ := directory_start hp _
    exact ih hu hw

def lookupNames (p : Path) : List Text := if p.wantsDirectory then p.steps ++ [['.']] else p.steps

theorem plain_of_mem_lookupNames {p : Path} {m : Text} (h : m ∈ lookupNames p) :
    m ≠ [] ∧ '/' ∉ m := by
  have hsteps (hm : m ∈ p.steps) : m ≠ [] ∧ '/' ∉ m := by
    rw [Path.steps_eq, List.mem_filter] at hm
    exact ⟨by simpa using hm.2, Text.noSlash_of_mem_pieces hm.1⟩
  rw [lookupNames] at h
  split at h
  · cases List.mem_append.1 h with
    | inl h => exact hsteps h
    | inr h =>
      rw [List.mem_singleton.1 h]
      simp
  · exact hsteps h

theorem WellFormed.free_of_walk (h : fs.WellFormed) {followLast : Bool} {links t : Nat}
    (hp : fs.at? p = some (.directory t)) (hnames : ∀ m ∈ names, m ≠ [] ∧ '/' ∉ m)
    (hw : fs.walk followLast links p names = .ok (.free q)) :
    ∃ r m u, q = r ++ [m] ∧ ValidName m ∧ fs.at? r = some (.directory u) ∧ fs.at? q = none := by
  fun_induction FileSystem.walk fs followLast links p names generalizing t with
  | case1 => simp at hw
  | case2 links p rest ih => exact ih hp (fun m hm => hnames m (by simp [hm])) hw
  | case3 links p rest _ ih =>
    obtain ⟨u, hu⟩ := h.directory_dropLast hp
    exact ih hu (fun m hm => hnames m (by simp [hm])) hw
  | case4 => simp at hw
  | case5 =>
    rename_i p name hdot hdots _ hat
    simp only [Except.ok.injEq, Spot.free.injEq] at hw
    obtain ⟨hne, hslash⟩ := hnames name (by simp)
    exact ⟨p, name, t, hw.symm, ⟨hne, hslash, hdot, hdots⟩, hp, hw ▸ hat⟩
  | case6 => simp at hw
  | case7 links p name rest _ _ _ t' hat ih => exact ih hat (fun m hm => hnames m (by simp [hm])) hw
  | case8 => simp at hw
  | case9 => simp at hw
  | case10 => simp at hw
  | case11 => simp at hw
  | case12 => simp at hw
  | case13 =>
    rename_i target _ more ih
    obtain ⟨u, hu⟩ := directory_start hp _
    refine ih hu (fun m hm => ?_) hw
    cases List.mem_append.1 hm with
    | inl hm => exact plain_of_mem_lookupNames (p := target) (by simpa [more, lookupNames] using hm)
    | inr hm => exact hnames m (by simp [hm])

theorem walk_of_walk_follow {links : Nat} (hw : fs.walk true links p names = .ok (.found q n)) :
    ∃ r m, fs.walk false links p names = .ok (.found r m) := by
  fun_induction FileSystem.walk fs true links p names with
  | case1 => exact ⟨_, _, by rw [walk]⟩
  | case2 links p rest ih =>
    rw [walk, if_pos rfl]
    exact ih hw
  | case3 links p rest hdot ih =>
    rw [walk, if_neg hdot, if_pos rfl]
    exact ih hw
  | case4 => simp at hw
  | case5 => simp at hw
  | case6 => simp at hw
  | case7 links p name rest hdot hdots hlen t hat ih =>
    rw [walk, if_neg hdot, if_neg hdots, if_neg hlen, hat]
    exact ih hw
  | case8 =>
    rename_i p name hdot hdots hlen c t hat
    rw [walk, if_neg hdot, if_neg hdots, if_neg hlen, hat]
    exact ⟨_, _, rfl⟩
  | case9 => simp at hw
  | case10 links p name rest hdot hdots hlen target hat hlast => simp at hlast
  | case11 => simp at hw
  | case12 => simp at hw
  | case13 =>
    rename_i p name rest hdot hdots hlen target hat hlast links goal hgoal more ih
    rw [walk, if_neg hdot, if_neg hdots, if_neg hlen, hat]
    by_cases hrest : rest = []
    · exact ⟨p ++ [name], .link target, by simp [hrest]⟩
    · obtain ⟨r, m, hr⟩ := ih hw
      refine ⟨r, m, ?_⟩
      simp only [hrest, decide_false, Bool.false_and, Bool.false_eq_true, if_false]
      rw [if_neg hgoal]
      exact hr

def Fits (name : Text) : Prop := Text.byteLength name ≤ maxName

instance (name : Text) : Decidable (Fits name) := inferInstanceAs (Decidable (_ ≤ _))

theorem WellFormed.walk_real (h : fs.WellFormed) {followLast : Bool} (links : Nat)
    (hn : fs.at? (p ++ names) = some n) (hlink : followLast = true → n.isLink = false) :
    fs.walk followLast links p names =
      if ∀ m ∈ names, Fits m then .ok (.found (p ++ names) n) else .error .nameTooLong := by
  induction names generalizing p with
  | nil =>
    rw [List.append_nil] at hn ⊢
    rw [walk, hn]
    simp
  | cons name rest ih =>
    have hname : ValidName name := h.validNames hn name (by simp)
    have hcons : p ++ name :: rest = (p ++ [name]) ++ rest := by simp
    rw [hcons] at hn ⊢
    rw [walk, if_neg hname.ne_dot, if_neg hname.ne_dots]
    by_cases hfits : Fits name
    · have hall : (∀ m ∈ name :: rest, Fits m) ↔ ∀ m ∈ rest, Fits m := by simp [hfits]
      rw [if_neg (Nat.not_lt.2 hfits), if_congr hall rfl rfl]
      by_cases hrest : rest = []
      · subst hrest
        rw [List.append_nil] at hn ⊢
        rw [hn]
        cases n with
        | file => simp
        | directory t => simpa using ih (p := p ++ [name]) (by simpa using hn)
        | link =>
          cases followLast with
          | true => simp [Node.isLink] at hlink
          | false => simp
      · obtain ⟨t, ht⟩ := h.directory_above hrest hn
        rw [ht]
        exact ih hn
    · rw [if_pos (Nat.not_le.1 hfits), if_neg fun hall => hfits (hall name (by simp))]

/-! ### Texts that are refused -/

/-- Why the text of a path is refused before anything is looked up. -/
def textRefusal? (p : Path) : Option IoError :=
  if p.text.contains (Char.ofNat 0) then some .nulInName
  else if p.text = [] then some .notFound
  else if maxPath ≤ Text.byteLength p.text then some .nameTooLong
  else none

theorem textRefusal?_eq_none {p : Path} :
    textRefusal? p = none ↔
      p.text.contains (Char.ofNat 0) = false ∧ p.text ≠ [] ∧ Text.byteLength p.text < maxPath := by
  rw [textRefusal?]
  split
  next hnul =>
    rw [hnul]
    simp
  next hnul =>
    split
    next hnil => simp [hnil]
    next hne =>
      split
      next hlong => simp [Nat.not_lt.2 hlong]
      next hshort => exact iff_of_true rfl ⟨by simpa using hnul, hne, Nat.lt_of_not_le hshort⟩

theorem find_eq (fs : FileSystem) (followLast : Bool) (p : Path) :
    fs.find followLast p = match textRefusal? p with
      | some e => .error e
      | none =>
        fs.walk followLast maxLinks (if p.isAbsolute then [] else fs.here) (lookupNames p) := by
  rw [find, textRefusal?]
  split
  · rfl
  split
  · rfl
  split <;> rfl

theorem find_of_ok {followLast : Bool} {p : Path} {s : Spot} (h : fs.find followLast p = .ok s) :
    textRefusal? p = none ∧
      fs.walk followLast maxLinks (if p.isAbsolute then [] else fs.here) (lookupNames p) =
        .ok s := by
  rw [find_eq] at h
  cases hr : textRefusal? p with
  | some e => simp [hr] at h
  | none => exact ⟨rfl, by simpa [hr] using h⟩

theorem textRefusal?_mono {a p : Path} (h : a.text <+: p.text) (hne : a.text ≠ [])
    (hnone : textRefusal? p = none) : textRefusal? a = none := by
  obtain ⟨r, hr⟩ := h
  obtain ⟨hnul, -, hshort⟩ := textRefusal?_eq_none.1 hnone
  rw [← hr, Text.byteLength_append] at hshort
  rw [← hr] at hnul
  refine textRefusal?_eq_none.2 ⟨?_, hne, by omega⟩
  simp only [List.contains_eq_mem, List.mem_append, decide_eq_false_iff_not, not_or] at hnul ⊢
  exact hnul.1

theorem stat_eq_ok {p : Path} : fs.stat p = .ok (q, n) ↔ fs.find true p = .ok (.found q n) := by
  rw [stat]
  split <;> simp_all

theorem linkStat_eq_ok {p : Path} :
    fs.linkStat p = .ok (q, n) ↔ fs.find false p = .ok (.found q n) := by
  rw [linkStat]
  split <;> simp_all

theorem WellFormed.free_of_find (h : fs.WellFormed) {followLast : Bool} {p : Path}
    (hp : p.isAbsolute) (hf : fs.find followLast p = .ok (.free q)) :
    ∃ r m u, q = r ++ [m] ∧ ValidName m ∧ fs.at? r = some (.directory u) ∧ fs.at? q = none := by
  have hw := (find_of_ok hf).2
  rw [if_pos hp] at hw
  exact h.free_of_walk (at?_nil fs) (fun m hm => plain_of_mem_lookupNames hm) hw

theorem linkStat_of_stat {p : Path} (h : fs.stat p = .ok (q, n)) :
    ∃ r m, fs.linkStat p = .ok (r, m) := by
  obtain ⟨hr, hw⟩ := find_of_ok (stat_eq_ok.1 h)
  obtain ⟨r, m, hwalk⟩ := walk_of_walk_follow hw
  exact ⟨r, m, linkStat_eq_ok.2 (by rw [find_eq, hr]; exact hwalk)⟩

theorem node?_eq_some {p : Path} : fs.node? p = some n ↔ ∃ q, fs.stat p = .ok (q, n) := by
  rw [node?]
  cases hs : fs.stat p with
  | error e => simp [Except.toOption]
  | ok r =>
    exact ⟨fun h => ⟨r.1, by simpa [Except.toOption, Prod.ext_iff] using h⟩, fun ⟨q, h⟩ => by
      simp_all [Except.toOption]⟩

theorem modified_of_stat {p : Path} (h : fs.stat p = .ok (q, n)) :
    fs.modified p = .ok (fs.timeOf q n) := by rw [modified, h, Except.map]

theorem modified_of_error {p : Path} {e : IoError} (h : fs.stat p = .error e) :
    fs.modified p = .error e := by rw [modified, h, Except.map]

theorem exists_iff {p : Path} : fs.exists_ p ↔ ∃ q n, fs.stat p = .ok (q, n) := by
  rw [exists_, Option.isSome_iff_exists]
  exact ⟨fun ⟨n, h⟩ => (node?_eq_some.1 h).imp fun q hq => ⟨n, hq⟩,
    fun ⟨q, n, h⟩ => ⟨n, node?_eq_some.2 ⟨q, h⟩⟩⟩

theorem isDirectory_iff {p : Path} :
    fs.isDirectory p ↔ ∃ q t, fs.stat p = .ok (q, .directory t) := by
  rw [isDirectory, Option.any_eq_true]
  constructor
  · intro hcase
    obtain ⟨n, hn, hdir⟩ := hcase
    obtain ⟨q, hq⟩ := node?_eq_some.1 hn
    cases n with
    | directory t => exact ⟨q, t, hq⟩
    | file => simp [Node.isDirectory] at hdir
    | link => simp [Node.isDirectory] at hdir
  · intro hex
    obtain ⟨q, t, h⟩ := hex
    exact ⟨_, node?_eq_some.2 ⟨q, h⟩, rfl⟩

theorem not_isFile_of_isDirectory {p : Path} (h : fs.isDirectory p) : fs.isFile p = false := by
  obtain ⟨q, t, hs⟩ := isDirectory_iff.1 h
  rw [isFile, node?, hs]
  rfl

theorem WellFormed.at?_of_stat (h : fs.WellFormed) {p : Path} (hp : p.isAbsolute)
    (hs : fs.stat p = .ok (q, n)) : fs.at? q = some n ∧ n.isLink = false := by
  have hw := (find_of_ok (stat_eq_ok.1 hs)).2
  rw [if_pos hp] at hw
  exact (h.at?_of_walk (at?_nil fs) hw).imp_right fun hl => hl rfl

theorem lookupNames_ofPlace (hq : ∀ m ∈ q, Path.Plain m) :
    lookupNames (.ofPlace q) = if q = [] then [['.']] else q := by
  rw [lookupNames, Path.steps_ofPlace hq]
  by_cases hne : q = []
  · subst hne
    rfl
  · simp [Path.wantsDirectory_ofPlace hne hq, hne]

/-- Whether the real path of a place may be looked up at all. -/
def Speakable (q : Place) : Prop := textRefusal? (.ofPlace q) = none ∧ ∀ m ∈ q, Fits m

theorem WellFormed.find_ofPlace (h : fs.WellFormed) (followLast : Bool) (hn : fs.at? q = some n)
    (hlink : followLast = true → n.isLink = false) :
    fs.find followLast (.ofPlace q) = .ok (.found q n) ∨
      ¬Speakable q ∧ ∃ e, fs.find followLast (.ofPlace q) = .error e := by
  rw [find_eq]
  cases hr : textRefusal? (.ofPlace q) with
  | some e => exact .inr ⟨fun hq => by simp [hq.1] at hr, e, rfl⟩
  | none =>
    simp only [Path.isAbsolute_ofPlace, if_true, lookupNames_ofPlace (h.validNames hn).plain]
    by_cases hne : q = []
    · subst hne
      rw [at?_nil, Option.some.injEq] at hn
      subst hn
      simp [walk]
    · have hwalk := h.walk_real maxLinks (show fs.at? ([] ++ q) = some n from hn) hlink
      rw [if_neg hne, hwalk]
      split
      · exact .inl rfl
      next hfits => exact .inr ⟨fun hq => hfits hq.2, _, rfl⟩

theorem WellFormed.stat_ofPlace (h : fs.WellFormed) (hn : fs.at? q = some n)
    (hlink : n.isLink = false) :
    fs.stat (.ofPlace q) = .ok (q, n) ∨ ¬Speakable q ∧ ∃ e, fs.stat (.ofPlace q) = .error e := by
  rw [stat]
  cases h.find_ofPlace true hn fun _ => hlink with
  | inl hf => exact .inl (by rw [hf])
  | inr hcase =>
    obtain ⟨hq, e, hf⟩ := hcase
    exact .inr ⟨hq, e, by rw [hf]⟩

end FileSystem
end StaticSite
