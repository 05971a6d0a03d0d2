import StaticSite.Proofs.Shapes
import StaticSite.Proofs.Writes

/-! What a build keeps, links or not: nothing that is there goes away or becomes something else. So
what a path leads to it leads to ever after, and an output that was once written is there at the
end. -/
namespace StaticSite

namespace Node

variable {n : Node}

theorem eq_file_of_blank {content : Bytes} {t : Nat} (h : n.blank = (Node.file content t).blank) :
    ∃ c u, n = .file c u := by
  cases n with
  | file c u => exact ⟨c, u, rfl⟩
  | directory | link => simp [blank] at h

theorem eq_directory_of_blank {t : Nat} (h : n.blank = (Node.directory t).blank) :
    ∃ u, n = .directory u := by
  cases n with
  | directory u => exact ⟨u, rfl⟩
  | file | link => simp [blank] at h

theorem eq_link_of_blank {target : Text} (h : n.blank = (Node.link target).blank) :
    n = .link target := by
  cases n with
  | link => simpa [blank] using h
  | file | directory => simp [blank] at h

end Node

namespace FileSystem

variable {fs mid fs' : FileSystem} {p q : Place} {n : Node} {names : List Text} {path : Path}

/-- That each node stays the kind of node that it is, and a link the same link. -/
structure Keeps (fs fs' : FileSystem) : Prop where
  wellFormed : fs'.WellFormed
  kind : ∀ q n, fs.at? q = some n → ∃ n', fs'.at? q = some n' ∧ n'.blank = n.blank

theorem Keeps.refl (hwf : fs.WellFormed) : fs.Keeps fs := ⟨hwf, fun _ n hn => ⟨n, hn, rfl⟩⟩

theorem Keeps.trans (h : fs.Keeps mid) (h' : mid.Keeps fs') : fs.Keeps fs' := by
  refine ⟨h'.wellFormed, fun q n hn => ?_⟩
  obtain ⟨m, hm, hblank⟩ := h.kind q n hn
  obtain ⟨k, hk, hblank'⟩ := h'.kind q m hm
  exact ⟨k, hk, hblank'.trans hblank⟩

theorem Keeps.file (h : fs.Keeps fs') {content : Bytes} {t : Nat}
    (hq : fs.at? q = some (.file content t)) :
    ∃ c u, fs'.at? q = some (.file c u) := by
  obtain ⟨n, hn, hblank⟩ := h.kind q _ hq
  obtain ⟨c, u, rfl⟩ := Node.eq_file_of_blank hblank
  exact ⟨c, u, hn⟩

theorem Keeps.directory (h : fs.Keeps fs') {t : Nat} (hq : fs.at? q = some (.directory t)) :
    ∃ u, fs'.at? q = some (.directory u) := by
  obtain ⟨n, hn, hblank⟩ := h.kind q _ hq
  obtain ⟨u, rfl⟩ := Node.eq_directory_of_blank hblank
  exact ⟨u, hn⟩

theorem Keeps.link (h : fs.Keeps fs') {target : Text} (hq : fs.at? q = some (.link target)) :
    fs'.at? q = some (.link target) := by
  obtain ⟨n, hn, hblank⟩ := h.kind q _ hq
  rw [hn, Node.eq_link_of_blank hblank]

theorem Grows.keeps (h : fs.Grows fs') :
    fs.Keeps fs' := ⟨h.wellFormed, fun _ n hn => ⟨n, h.at?_of_some hn, rfl⟩⟩

theorem Keeps.walk (h : fs.Keeps fs') (hwf : fs.WellFormed) {followLast : Bool} {links t : Nat}
    (hp : fs.at? p = some (.directory t))
    (hw : fs.walk followLast links p names = .ok (.found q n)) :
    ∃ n', fs'.walk followLast links p names = .ok (.found q n') := by
  -- The induction follows the lookup in the old state; each node that it passes is of its kind in
  -- the new one.
  fun_induction FileSystem.walk fs followLast links p names generalizing t with
  | case1 links p =>
    simp only [Except.ok.injEq, Spot.found.injEq] at hw
    exact ⟨_, by rw [FileSystem.walk, hw.1]⟩
  | case2 links p rest ih =>
    rw [FileSystem.walk, if_pos rfl]
    exact ih hp hw
  | case3 links p rest hdot ih =>
    obtain ⟨u, hu⟩ := hwf.directory_dropLast hp
    rw [FileSystem.walk, if_neg hdot, if_pos rfl]
    exact ih hu hw
  | case4 => simp at hw
  | case5 => simp at hw
  | case6 => simp at hw
  | case7 links p name rest hdot hdots hlen u hat ih =>
    obtain ⟨v, hv⟩ := h.directory hat
    rw [FileSystem.walk, if_neg hdot, if_neg hdots, if_neg hlen, hv]
    exact ih hat hw
  | case8 =>
    rename_i p name hdot hdots hlen c u hat
    obtain ⟨c', u', hat'⟩ := h.file hat
    simp only [Except.ok.injEq, Spot.found.injEq] at hw
    exact ⟨_, by rw [FileSystem.walk, if_neg hdot, if_neg hdots, if_neg hlen, hat', ← hw.1]; rfl⟩
  | case9 => simp at hw
  | case10 links p name rest hdot hdots hlen target hat hlast =>
    simp only [Except.ok.injEq, Spot.found.injEq] at hw
    refine ⟨.link target, ?_⟩
    rw [FileSystem.walk, if_neg hdot, if_neg hdots, if_neg hlen, h.link hat, ← hw.1]
    simp only [if_pos hlast]
  | case11 => simp at hw
  | case12 => simp at hw
  | case13 =>
    rename_i p name rest hdot hdots hlen target hat hlast links goal hgoal more ih
    obtain ⟨u, hu⟩ := directory_start hp goal.isAbsolute
    rw [FileSystem.walk, if_neg hdot, if_neg hdots, if_neg hlen, h.link hat]
    simp only [if_neg hlast]
    rw [if_neg hgoal]
    exact ih hu hw

theorem Keeps.stat (h : fs.Keeps fs') (hwf : fs.WellFormed) (hp : path.isAbsolute)
    (hs : fs.stat path = .ok (q, n)) :
    ∃ n', fs'.stat path = .ok (q, n') ∧ n'.blank = n.blank := by
  obtain ⟨hnone, hw⟩ := find_of_ok (stat_eq_ok.1 hs)
  rw [if_pos hp] at hw
  obtain ⟨n', hw'⟩ := h.walk hwf (at?_nil fs) hw
  have hs' : fs'.stat path = .ok (q, n') := by
    rw [stat_eq_ok, find_eq, hnone, if_pos hp]
    exact hw'
  obtain ⟨m, hm, hblank⟩ := h.kind q n (hwf.at?_of_stat hp hs).1
  rw [(h.wellFormed.at?_of_stat hp hs').1, Option.some.injEq] at hm
  exact ⟨n', hs', by rw [hm, hblank]⟩

theorem Keeps.isDirectory (h : fs.Keeps fs') (hwf : fs.WellFormed) (hp : path.isAbsolute)
    (hdir : fs.isDirectory path) :
    fs'.isDirectory path := by
  obtain ⟨q, t, hs⟩ := isDirectory_iff.1 hdir
  obtain ⟨n, hn, hblank⟩ := h.stat hwf hp hs
  obtain ⟨u, rfl⟩ := Node.eq_directory_of_blank hblank
  exact isDirectory_iff.2 ⟨q, u, hn⟩

theorem isFile_iff : fs.isFile path ↔ ∃ q content t, fs.stat path = .ok (q, .file content t) := by
  rw [isFile, Option.any_eq_true]
  constructor
  · intro hcase
    obtain ⟨n, hn, hfile⟩ := hcase
    obtain ⟨q, hq⟩ := node?_eq_some.1 hn
    cases n with
    | file content t => exact ⟨q, content, t, hq⟩
    | directory | link => simp [Node.isFile] at hfile
  · intro hex
    obtain ⟨q, content, t, h⟩ := hex
    exact ⟨_, node?_eq_some.2 ⟨q, h⟩, rfl⟩

theorem Keeps.isFile (h : fs.Keeps fs') (hwf : fs.WellFormed) (hp : path.isAbsolute)
    (hfile : fs.isFile path) :
    fs'.isFile path := by
  obtain ⟨q, content, t, hs⟩ := isFile_iff.1 hfile
  obtain ⟨n, hn, hblank⟩ := h.stat hwf hp hs
  obtain ⟨c, u, rfl⟩ := Node.eq_file_of_blank hblank
  exact isFile_iff.2 ⟨q, c, u, hn⟩

/-! ### Writes -/

theorem keeps_put (hwf : fs.WellFormed) (hp : path.isAbsolute) (ht : fs.target path = .ok q)
    (content : Bytes) (t : Nat) :
    fs.Keeps (fs.put q (.file content t)).tick := by
  refine ⟨(hwf.put_target hp ht content t).tick, fun r n hn => ?_⟩
  obtain ⟨⟨s, m, u, rfl, -⟩, hcase⟩ := hwf.of_target hp ht
  rw [at?_tick]
  by_cases hr : r = s ++ [m]
  · subst hr
    refine ⟨_, at?_put_self fs (by simp) _, ?_⟩
    cases hcase with
    | inl hfound =>
      obtain ⟨c, v, -, hat⟩ := hfound
      rw [hat, Option.some.injEq] at hn
      rw [← hn]
      rfl
    | inr hfree =>
      obtain ⟨-, hnone⟩ := hfree
      simp [hnone] at hn
  · exact ⟨n, (at?_put_of_ne fs _ hr).trans hn, rfl⟩

/-- What is put at a free name is found by the way that led to the name, through the same links. -/
theorem walk_put_free {content : Bytes} {t links : Nat} (hnone : fs.at? q = none)
    (hw : fs.walk true links p names = .ok (.free q)) :
    (fs.put q (.file content t)).walk true links p names = .ok (.found q (.file content t)) := by
  have hother {r : Place} {n : Node} (hr : fs.at? r = some n) :
      (fs.put q (.file content t)).at? r = some n := by
    have hne : r ≠ q := by
      intro he
      subst he
      simp [hnone] at hr
    rw [at?_put_of_ne fs _ hne, hr]
  -- Up to the free name the way passes what is there, so the cases are those of the first lookup.
  fun_induction FileSystem.walk fs true links p names with
  | case1 => simp at hw
  | case2 links p rest ih =>
    rw [FileSystem.walk, if_pos rfl]
    exact ih hw
  | case3 links p rest hdot ih =>
    rw [FileSystem.walk, if_neg hdot, if_pos rfl]
    exact ih hw
  | case4 => simp at hw
  | case5 =>
    rename_i p name hdot hdots hlen hat
    simp only [Except.ok.injEq, Spot.free.injEq] at hw
    subst hw
    rw [FileSystem.walk, if_neg hdot, if_neg hdots, if_neg hlen, at?_put_self fs (by simp)]
    rfl
  | case6 => simp at hw
  | case7 links p name rest hdot hdots hlen u hat ih =>
    rw [FileSystem.walk, if_neg hdot, if_neg hdots, if_neg hlen, hother hat]
    exact ih hw
  | case8 => simp at hw
  | case9 => simp at hw
  | case10 => simp at hw
  | case11 => simp at hw
  | case12 => simp at hw
  | case13 =>
    rename_i p name rest hdot hdots hlen target hat hlast links goal hgoal more ih
    rw [FileSystem.walk, if_neg hdot, if_neg hdots, if_neg hlen, hother hat]
    simp only [if_neg hlast]
    rw [if_neg hgoal]
    exact ih hw

theorem stat_put_target (hwf : fs.WellFormed) (hp : path.isAbsolute) (ht : fs.target path = .ok q)
    (content : Bytes) (t : Nat) : (fs.put q (.file content t)).tick.stat path =
      .ok (q, .file content t) := by
  have hkeeps := keeps_put hwf hp ht content t
  have hput : ∃ n, (fs.put q (.file content t)).tick.stat path = .ok (q, n) := by
    obtain ⟨-, ⟨c, u, hf, -⟩ | ⟨hf, hnone⟩⟩ := hwf.of_target hp ht
    · obtain ⟨n, hn, -⟩ := hkeeps.stat hwf hp (stat_eq_ok.2 hf)
      exact ⟨n, hn⟩
    · obtain ⟨hrefusal, hw⟩ := find_of_ok hf
      rw [if_pos hp] at hw
      have hfree : (fs.put q (.file content t)).stat path = .ok (q, .file content t) := by
        rw [stat_eq_ok, find_eq, hrefusal, if_pos hp]
        exact walk_put_free hnone hw
      have htick : (fs.put q (.file content t)).Keeps (fs.put q (.file content t)).tick :=
        ⟨hkeeps.wellFormed, fun r n hn => ⟨n, hn, rfl⟩⟩
      obtain ⟨n, hn, -⟩ := htick.stat (hwf.put_target hp ht content t) hp hfree
      exact ⟨n, hn⟩
  obtain ⟨n, hn⟩ := hput
  obtain ⟨⟨r, m, u, rfl, -⟩, -⟩ := hwf.of_target hp ht
  have hat := (hkeeps.wellFormed.at?_of_stat hp hn).1
  rw [at?_tick, at?_put_self fs (by simp), Option.some.injEq] at hat
  rw [hn, ← hat]

theorem isFile_put_target (hwf : fs.WellFormed) (hp : path.isAbsolute) (ht : fs.target path = .ok q)
    (content : Bytes) (t : Nat) : (fs.put q (.file content t)).tick.isFile path :=
  isFile_iff.2 ⟨q, content, t, stat_put_target hwf hp ht content t⟩

end FileSystem

namespace Builder

open FileSystem

variable {b : Builder} {fs : FileSystem} {rel : Path} {rels : List Path}

theorem buildFile_keeps (hwf : fs.WellFormed) (hout : (b.destinationFor rel).isAbsolute) :
    fs.Keeps (b.buildFile fs rel).files := by
  have hgrows := ensureParent_grows hwf hout
  rcases buildFile_files b fs rel with hsame | ⟨-, hsame | ⟨content, hsame⟩⟩
  · rw [hsame]
    exact .refl hwf
  · rw [hsame]
    exact hgrows.keeps
  · rw [hsame]
    rcases deposit_cases (ensureParent fs (b.destinationFor rel)).1 (b.destinationFor rel)
      content with hput | ⟨q, ht, hput⟩
    · rw [hput]
      exact hgrows.keeps
    · rw [hput]
      exact hgrows.keeps.trans (keeps_put hgrows.wellFormed hout ht _ _)

theorem buildFiles_keeps (hwf : fs.WellFormed)
    (hout : ∀ rel ∈ rels, (b.destinationFor rel).isAbsolute) :
    fs.Keeps (b.buildFiles fs rels).files := by
  induction rels generalizing fs with
  | nil => exact .refl hwf
  | cons rel rels ih =>
    have hstep : fs.Keeps (b.buildFile fs rel).files := buildFile_keeps hwf (hout rel (by simp))
    rw [Builder.buildFiles]
    exact hstep.trans (ih hstep.wellFormed fun r hr => hout r (by simp [hr]))

end Builder
end StaticSite
