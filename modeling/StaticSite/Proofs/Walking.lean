import StaticSite.Proofs.ByteOrder
import StaticSite.Proofs.Keeping
import StaticSite.Proofs.Order
import StaticSite.Proofs.PathJoins

/-! The walk through the source tree, links or not. It goes down through real directories only, and
leaves out what is excluded with all that is below it; so a path is listed exactly if it leads to
something, all above it is visible, and the system refuses nothing on the way. The walk lists a
directory right before what is in it, and all in the order of the bytes of the names. -/
namespace StaticSite

open FileSystem

namespace FileSystem

variable {fs : FileSystem} {p q place : Place} {names : List Text} {name : Text}
  {links left t : Nat} {top : Path}

theorem exists_walk_append {a e : List Text} (he : e = [] ∨ e = [['.']])
    (h : fs.walk true links p (a ++ e) = .ok (.found q (.directory t))) :
    ∃ left, ∀ followLast rest, rest ≠ [] →
      fs.walk followLast links p (a ++ rest) = fs.walk followLast left q rest := by
  fun_induction FileSystem.walk fs true links p a with
  | case1 links p =>
    have hq : p = q := by
      rcases he with rfl | rfl <;> simp_all [FileSystem.walk]
    subst hq
    exact ⟨links, fun _ _ _ => rfl⟩
  | case2 links p rest ih =>
    rw [List.cons_append, FileSystem.walk, if_pos rfl] at h
    obtain ⟨left, hleft⟩ := ih h
    refine ⟨left, fun followLast more hmore => ?_⟩
    rw [List.cons_append, FileSystem.walk, if_pos rfl]
    exact hleft followLast more hmore
  | case3 links p rest hdot ih =>
    rw [List.cons_append, FileSystem.walk, if_neg hdot, if_pos rfl] at h
    obtain ⟨left, hleft⟩ := ih h
    refine ⟨left, fun followLast more hmore => ?_⟩
    rw [List.cons_append, FileSystem.walk, if_neg hdot, if_pos rfl]
    exact hleft followLast more hmore
  | case4 links p name rest hdot hdots hlen =>
    rw [List.cons_append, FileSystem.walk, if_neg hdot, if_neg hdots, if_pos hlen] at h
    cases h
  | case5 =>
    rename_i p name hdot hdots hlen hat
    rw [List.cons_append, FileSystem.walk, if_neg hdot, if_neg hdots, if_neg hlen, hat] at h
    rcases he with rfl | rfl <;> simp at h
  | case6 =>
    rename_i p name rest hdot hdots hlen hat hrest
    rw [List.cons_append, FileSystem.walk, if_neg hdot, if_neg hdots, if_neg hlen, hat] at h
    simp [hrest] at h
  | case7 links p name rest hdot hdots hlen u hat ih =>
    rw [List.cons_append, FileSystem.walk, if_neg hdot, if_neg hdots, if_neg hlen, hat] at h
    obtain ⟨left, hleft⟩ := ih h
    refine ⟨left, fun followLast more hmore => ?_⟩
    rw [List.cons_append, FileSystem.walk, if_neg hdot, if_neg hdots, if_neg hlen, hat]
    exact hleft followLast more hmore
  | case8 =>
    rename_i p name hdot hdots hlen c u hat
    rw [List.cons_append, FileSystem.walk, if_neg hdot, if_neg hdots, if_neg hlen, hat] at h
    rcases he with rfl | rfl <;> simp at h
  | case9 =>
    rename_i p name rest hdot hdots hlen c u hat hrest
    rw [List.cons_append, FileSystem.walk, if_neg hdot, if_neg hdots, if_neg hlen, hat] at h
    simp [hrest] at h
  | case10 => simp_all
  | case11 =>
    rename_i p name rest hdot hdots hlen target hat hlast
    rw [List.cons_append, FileSystem.walk, if_neg hdot, if_neg hdots, if_neg hlen, hat] at h
    simp at h
  | case12 =>
    rename_i p name rest hdot hdots hlen target hat hlast links goal hgoal
    rw [List.cons_append, FileSystem.walk, if_neg hdot, if_neg hdots, if_neg hlen, hat] at h
    simp only [Bool.not_true, Bool.and_false, Bool.false_eq_true, if_false] at h
    rw [if_pos hgoal] at h
    cases h
  | case13 =>
    rename_i p name rest hdot hdots hlen target hat hlast links goal hgoal more ih
    rw [List.cons_append, FileSystem.walk, if_neg hdot, if_neg hdots, if_neg hlen, hat] at h
    simp only [Bool.not_true, Bool.and_false, Bool.false_eq_true, if_false] at h
    rw [if_neg hgoal, ← List.append_assoc] at h
    obtain ⟨left, hleft⟩ := ih h
    refine ⟨left, fun followLast further hfurther => ?_⟩
    rw [List.cons_append, FileSystem.walk, if_neg hdot, if_neg hdots, if_neg hlen, hat]
    have hopen : (decide (rest ++ further = []) && !followLast) = false := by simp [hfurther]
    simp only [hopen, Bool.false_eq_true, if_false]
    rw [if_neg hgoal, ← List.append_assoc]
    exact hleft followLast further hfurther

theorem walk_of_directories (hwf : fs.WellFormed) {followLast : Bool} (hnames : ValidNames names)
    (hat : names = [] ∨ ∃ t, fs.at? (p ++ names) = some (.directory t)) (rest : List Text) :
    fs.walk followLast links p (names ++ rest) =
      if ∀ m ∈ names, Fits m then fs.walk followLast links (p ++ names) rest
        else .error .nameTooLong := by
  induction names generalizing p with
  | nil => simp
  | cons name names ih =>
    obtain ⟨hname, hvalid⟩ := hnames.of_cons
    have hcons : p ++ name :: names = p ++ [name] ++ names := by simp
    obtain ⟨t, ht⟩ : ∃ t, fs.at? (p ++ [name] ++ names) = some (.directory t) := by
      rw [← hcons]
      exact hat.resolve_left (by simp)
    obtain ⟨u, hu⟩ : ∃ u, fs.at? (p ++ [name]) = some (.directory u) := by
      by_cases hne : names = []
      · subst hne
        exact ⟨t, by simpa using ht⟩
      · exact hwf.directory_above hne ht
    rw [List.cons_append, FileSystem.walk, if_neg hname.ne_dot, if_neg hname.ne_dots, hcons]
    by_cases hfits : Fits name
    · rw [if_neg (Nat.not_lt.2 hfits), hu]
      simp only [List.mem_cons, forall_eq_or_imp, hfits, true_and]
      exact ih hvalid (.inr ⟨t, ht⟩)
    · rw [if_pos (Nat.not_le.1 hfits), if_neg fun hall => hfits (hall name List.mem_cons_self)]

theorem at?_of_walk_name {followLast : Bool} {n : Node} (hname : ValidName name)
    (h : fs.walk followLast links p [name] = .ok (.found q n)) :
    ∃ m, fs.at? (p ++ [name]) = some m ∧ (followLast = false → q = p ++ [name] ∧ m = n) := by
  rw [FileSystem.walk, if_neg hname.ne_dot, if_neg hname.ne_dots] at h
  split at h
  · cases h
  cases hat : fs.at? (p ++ [name]) with
  | none => simp [hat] at h
  | some m =>
    refine ⟨m, rfl, fun hlast => ?_⟩
    cases m with
    | file c t => simpa [hat, eq_comm] using h
    | directory t => simpa [hat, FileSystem.walk, eq_comm] using h
    | link target => simpa [hat, hlast, eq_comm] using h

theorem exists_at?_of_walk {followLast : Bool} {n : Node} {a : List Text} (hwf : fs.WellFormed)
    (ha : ValidNames a) (hname : ValidName name)
    (hup : a = [] ∨ ∃ t, fs.at? (p ++ a) = some (.directory t))
    (h : fs.walk followLast links p (a ++ [name]) = .ok (.found q n)) :
    ∃ m, fs.at? (p ++ (a ++ [name])) = some m ∧
      (followLast = false → q = p ++ (a ++ [name]) ∧ m = n) := by
  rw [walk_of_directories hwf ha hup] at h
  split at h
  · rw [← List.append_assoc]
    exact at?_of_walk_name hname h
  · cases h

/-! ### From the start of a walk -/

/-- That what is below a path is looked up from a place, with so many links left. -/
structure Starts (fs : FileSystem) (top : Path) (place : Place) (left : Nat) : Prop where
  text : top.text ≠ []
  walk : ∀ followLast rest, rest ≠ [] →
    fs.walk followLast maxLinks (if top.isAbsolute then [] else fs.here) (top.steps ++ rest) =
      fs.walk followLast left place rest

theorem exists_starts (h : fs.stat top = .ok (place, .directory t)) :
    ∃ left, Starts fs top place left := by
  obtain ⟨hnone, hwalk⟩ := find_of_ok (stat_eq_ok.1 h)
  have hnames : ∃ e, (e = [] ∨ e = [['.']]) ∧ lookupNames top = top.steps ++ e := by
    rw [lookupNames]
    split
    · exact ⟨_, .inr rfl, rfl⟩
    · exact ⟨[], .inl rfl, (List.append_nil _).symm⟩
  obtain ⟨e, he, hsteps⟩ := hnames
  rw [hsteps] at hwalk
  obtain ⟨left, hleft⟩ := exists_walk_append he hwalk
  exact ⟨left, (textRefusal?_eq_none.1 hnone).2.1, hleft⟩

theorem Starts.find_descend (h : Starts fs top place left) (followLast : Bool) (hne : names ≠ [])
    (hplain : ∀ n ∈ names, Path.Plain n) :
    fs.find followLast (top.descend names) = match textRefusal? (top.descend names) with
      | some e => .error e
      | none => fs.walk followLast left place names := by
  have hjoin := Path.join_ofNames top hne hplain
  have hrel := Path.ofNames_noAbsolute hplain
  rw [find_eq, lookupNames, Path.wantsDirectory_below top hne hplain, ← hjoin,
    Path.isAbsolute_join_relative hrel, Path.steps_join_of_ne_nil h.text hrel,
    Path.steps_ofNames hne hplain]
  cases textRefusal? (top.join (.ofNames names)) with
  | some e => rfl
  | none => exact h.walk followLast names hne

theorem Starts.text_descend_ne_nil (h : Starts fs top place left)
    (hplain : ∀ n ∈ names, Path.Plain n) :
    (top.descend names).text ≠ [] := by
  intro hnil
  have hbegins := Path.prefix_below top hplain
  rw [hnil] at hbegins
  exact h.text (List.prefix_nil.1 hbegins)

theorem Starts.linkStat_above {a more : List Text} {n m : Node} (h : Starts fs top place left)
    (hwf : fs.WellFormed) (hnames : ValidNames (a ++ more)) (ha : a ≠ []) (hmore : more ≠ [])
    (hat : fs.at? (place ++ (a ++ more)) = some n)
    (hstat : fs.stat (top.descend (a ++ more)) = .ok (q, m)) :
    ∃ t, fs.linkStat (top.descend a) = .ok (place ++ a, .directory t) := by
  obtain ⟨hvalid, hrest⟩ := hnames.of_append
  obtain ⟨hnone, -⟩ := find_of_ok (stat_eq_ok.1 hstat)
  have hfind := stat_eq_ok.1 hstat
  rw [h.find_descend true (by simp [ha]) hnames.plain, hnone] at hfind
  simp only at hfind
  rw [← List.append_assoc] at hat
  obtain ⟨t, ht⟩ := hwf.directory_above hmore hat
  have hfits : ∀ m ∈ a, Fits m := by
    by_contra hlong
    rw [walk_of_directories hwf hvalid (.inr ⟨t, ht⟩), if_neg hlong] at hfind
    cases hfind
  have hbegins : (top.descend a).text <+: (top.descend (a ++ more)).text := by
    rw [Path.descend_append]
    exact Path.prefix_below _ hrest.plain
  have hwalk : fs.walk false left place (a ++ []) = _ :=
    walk_of_directories hwf hvalid (.inr ⟨t, ht⟩) []
  rw [List.append_nil, if_pos hfits, FileSystem.walk, ht] at hwalk
  refine ⟨t, linkStat_eq_ok.2 ?_⟩
  rw [h.find_descend false ha hvalid.plain,
    textRefusal?_mono hbegins (h.text_descend_ne_nil hvalid.plain) hnone]
  exact hwalk

end FileSystem

namespace SourceEntry

variable {fs : FileSystem} {place : Place} {names : List Text} {left : Nat} {top source rel : Path}
  {kind : EntryKind}

variable {policy : ExclusionPolicy} {refused : Refusals} {fuel : Nat} {above : List Text}
  {e : Text × Node} {x : SourceEntry}

end SourceEntry

namespace Builder

variable {b : Builder} {fs : FileSystem} {rel : Path} {refused : Refusals} {names : List Text}
  {e : SourceEntry}

/-- What the walk logs: a start that the system does not tell of, and the visible directories that
cannot be read. -/
theorem mem_log_collectRefused_iff (hwf : fs.WellFormed) {line : Log.Line} :
    line ∈ (b.collectRefused fs rel refused).2 ↔
      (∃ e, SourceEntry.seen fs refused (b.source.join rel) = .error e ∧
        line = SourceEntry.refusalLine (b.source.join rel) e) ∨
      ∃ place t names e,
        SourceEntry.seen fs refused (b.source.join rel) = .ok (place, .directory t) ∧
        (names = [] ∨ ∃ u, fs.at? (place ++ names) = some (.directory u)) ∧
        SourceEntry.Readable refused (b.source.join rel) names ∧
        SourceEntry.Shown b.policy b.source (b.source.join rel) names ∧
        SourceEntry.refusal? refused ((b.source.join rel).descend names) = some e ∧
        line = SourceEntry.refusalLine ((b.source.join rel).descend names) e := by
  rw [collectRefused, SourceEntry.collect, SourceEntry.mem_logged, SourceEntry.walkFrom]
  split
  next e hseen => simp [hseen, eq_comm]
  next place t hseen =>
    rw [SourceEntry.error_mem_below_iff hwf]
    simp only [hseen, reduceCtorEq, false_and, exists_false, false_or]
    constructor
    · intro hcase
      obtain ⟨names, e, -, h⟩ := hcase
      exact ⟨place, t, names, e, rfl, h⟩
    · intro hcase
      obtain ⟨place', t', names, e, heq, h⟩ := hcase
      obtain ⟨rfl, -⟩ := Prod.mk.inj (Except.ok.inj heq)
      refine ⟨names, e, ?_, h⟩
      rcases h.1 with rfl | ⟨u, hu⟩
      · exact Nat.succ_pos _
      · have hlength := hwf.length_le_nodes hu
        rw [List.length_append] at hlength
        exact Nat.lt_succ_of_le (Nat.le_of_add_left_le hlength)
  next found hdir hseen =>
    simp only [hseen, List.not_mem_nil, reduceCtorEq, false_and, exists_false, false_or, false_iff]
    intro hcase
    obtain ⟨place, t, names, e, heq, -⟩ := hcase
    exact hdir place t (Except.ok.inj heq)

end Builder
end StaticSite
