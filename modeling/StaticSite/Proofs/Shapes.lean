import StaticSite.Proofs.Documents

/-! States of one shape: they have directories and files at the same places, whatever the files hold
and whenever they were written. They look up alike, make directories alike, and list the same. -/
namespace StaticSite

open FileSystem

def Node.blank : Node → Node
  | .file _ _ => .file [] 0
  | .directory _ => .directory 0
  | .link target => .link target

def Spot.blank : Spot → Spot
  | .found q n => .found q n.blank
  | .free q => .free q

namespace FileSystem

variable {fs fs' : FileSystem} {p q : Place} {n : Node} {names : List Text} {path : Path}

/-- Two states of one shape, of which the other is sound. -/
structure SameShape (fs fs' : FileSystem) : Prop where
  wellFormed : fs'.WellFormed
  linkFree : fs'.LinkFree
  at? : ∀ q, (fs'.at? q).map Node.blank = (fs.at? q).map Node.blank

theorem SameShape.file_iff (h : SameShape fs fs') :
    (∃ content t, fs'.at? q = some (.file content t)) ↔
    ∃ content t, fs.at? q = some (.file content t) := by
  have hq := h.at? q
  constructor
  · intro hcase
    obtain ⟨content, t, hat⟩ := hcase
    rw [hat] at hq
    obtain ⟨n, hn, hblank⟩ := Option.map_eq_some_iff.1 hq.symm
    cases n with
    | file content t => exact ⟨content, t, hn⟩
    | directory | link => simp [Node.blank] at hblank
  · intro hex
    obtain ⟨content, t, hat⟩ := hex
    rw [hat] at hq
    obtain ⟨n, hn, hblank⟩ := Option.map_eq_some_iff.1 hq
    cases n with
    | file content t => exact ⟨content, t, hn⟩
    | directory | link => simp [Node.blank] at hblank

theorem SameShape.directory (h : SameShape fs fs') (r : Place) (t : Nat)
    (hr : fs.at? r = some (.directory t)) :
    ∃ u, fs'.at? r = some (.directory u) := by
  have hq := h.at? r
  rw [hr] at hq
  obtain ⟨n, hn, hblank⟩ := Option.map_eq_some_iff.1 hq
  cases n with
  | directory u => exact ⟨u, hn⟩
  | file | link => simp [Node.blank] at hblank

theorem SameShape.route (h : SameShape fs fs') (p : Place) (names : List Text) :
    (fs'.route p names).map Spot.blank = (fs.route p names).map Spot.blank := by
  induction names generalizing p with
  | nil =>
    have hp := h.at? p
    cases hat : fs.at? p <;> cases hat' : fs'.at? p <;> simp_all [FileSystem.route_nil, Except.map,
      Spot.blank, Node.blank]
  | cons name rest ih =>
    have hp := h.at? (p ++ [name])
    rw [FileSystem.route_step, FileSystem.route_step]
    split
    · exact ih p
    split
    · exact ih p.dropLast
    split
    case isFalse => rfl
    cases hat : fs.at? (p ++ [name]) with
    | none =>
      rw [hat, Option.map_none, Option.map_eq_none_iff] at hp
      rw [hp]
    | some n =>
      rw [hat] at hp
      obtain ⟨n', hn', hblank⟩ := Option.map_eq_some_iff.1 hp
      rw [hn']
      cases n <;> cases n' <;> simp only [Node.blank, reduceCtorEq] at hblank
      case file.file =>
        by_cases hrest : rest = [] <;> simp [hrest, Except.map, Spot.blank, Node.blank]
      case directory.directory => exact ih _
      case link.link =>
        rw [Node.link.injEq] at hblank
        rw [hblank]

theorem SameShape.find (h : SameShape fs fs') (hlf : fs.LinkFree) (followLast : Bool)
    (hp : path.isAbsolute) :
    (fs'.find followLast path).map Spot.blank = (fs.find followLast path).map Spot.blank := by
  rw [find_eq_route h.linkFree followLast hp, find_eq_route hlf followLast hp]
  cases textRefusal? path with
  | some e => rfl
  | none => exact h.route [] _

/-- What a lookup in one state says of the same in the other. -/
theorem SameShape.find_cases (h : SameShape fs fs') (hlf : fs.LinkFree) (followLast : Bool)
    (hp : path.isAbsolute) :
    (∃ e, fs.find followLast path = .error e ∧ fs'.find followLast path = .error e) ∨
      (∃ q, fs.find followLast path = .ok (.free q) ∧ fs'.find followLast path = .ok (.free q)) ∨
        ∃ q n n', fs.find followLast path = .ok (.found q n) ∧
          fs'.find followLast path = .ok (.found q n') ∧
          n'.blank = n.blank := by
  have hfind := h.find hlf followLast hp
  cases hf : fs.find followLast path with
  | error e =>
    cases hf' : fs'.find followLast path with
    | error e' =>
      rw [hf, hf'] at hfind
      exact .inl ⟨e, rfl, by rw [Except.error.inj hfind]⟩
    | ok s => simp [hf, hf', Except.map] at hfind
  | ok s =>
    cases hf' : fs'.find followLast path with
    | error e' => simp [hf, hf', Except.map] at hfind
    | ok s' =>
      rw [hf, hf'] at hfind
      have hblank := Except.ok.inj hfind
      cases s <;> cases s' <;> simp only [Spot.blank, reduceCtorEq, Spot.found.injEq,
        Spot.free.injEq] at hblank
      case found.found q n q' n' => exact .inr (.inr ⟨q, n, n', rfl, by rw [hblank.1], hblank.2⟩)
      case free.free q q' => exact .inr (.inl ⟨q, rfl, by rw [hblank]⟩)

theorem SameShape.stat (h : SameShape fs fs') (hlf : fs.LinkFree) (hp : path.isAbsolute)
    (hstat : fs'.stat path = .ok (q, n)) : ∃ m, fs.stat path = .ok (q, m) := by
  rw [stat_eq_ok] at hstat
  rcases h.find_cases hlf true hp with ⟨e, -, hf'⟩ | ⟨r, -, hf'⟩ | ⟨r, m, m', hf, hf', -⟩
  · simp [hstat] at hf'
  · simp [hstat] at hf'
  · rw [hstat, Except.ok.injEq, Spot.found.injEq] at hf'
    exact ⟨m, stat_eq_ok.2 (by rw [hf, hf'.1])⟩

theorem SameShape.isDirectory (h : SameShape fs fs') (hlf : fs.LinkFree) (hp : path.isAbsolute) :
    fs'.isDirectory path = fs.isDirectory path := by
  have hiff : fs'.isDirectory path ↔ fs.isDirectory path := by
    rw [isDirectory_iff, isDirectory_iff]
    simp only [stat_eq_ok]
    rcases h.find_cases hlf true hp with ⟨e, hf, hf'⟩ | ⟨q, hf, hf'⟩ | ⟨q, n, n', hf, hf', hblank⟩
    · simp [hf, hf']
    · simp [hf, hf']
    · rw [hf, hf']
      cases n <;> cases n' <;> simp_all [Node.blank]
  rwa [Bool.eq_iff_iff]

theorem SameShape.makeDirectory (h : SameShape fs fs') (hwf : fs.WellFormed) (hlf : fs.LinkFree)
    (hp : path.isAbsolute) :
    (∃ e, fs.makeDirectory path = .error e ∧ fs'.makeDirectory path = .error e) ∨
      ∃ made made', fs.makeDirectory path = .ok made ∧ fs'.makeDirectory path = .ok made' ∧
        SameShape made made' := by
  rw [FileSystem.makeDirectory, FileSystem.makeDirectory]
  split
  · exact .inl ⟨_, rfl, rfl⟩
  rcases h.find_cases hlf false (isAbsolute_trimSlashes hp) with ⟨e, hf, hf'⟩ | ⟨q, hf, hf'⟩
    | ⟨q, n, n', hf, hf', -⟩
  · rw [hf, hf']
    exact .inl ⟨e, rfl, rfl⟩
  · rw [hf, hf']
    refine .inr ⟨_, _, rfl, rfl, ?_⟩
    obtain ⟨p, m, t, rfl, hm, hat, -⟩ := hwf.free_of_find (isAbsolute_trimSlashes hp) hf
    obtain ⟨u, hat'⟩ := h.directory p t hat
    refine ⟨(h.wellFormed.put hat' hm (by simp [Node.isDirectory])).tick,
      (h.linkFree.put rfl _).tick, fun r => ?_⟩
    rw [at?_tick, at?_tick]
    by_cases hne : r = p ++ [m]
    · subst hne
      rw [at?_put_self fs (by simp), at?_put_self fs' (by simp)]
      rfl
    · rw [at?_put_of_ne fs _ hne, at?_put_of_ne fs' _ hne, h.at?]
  · rw [hf, hf']
    exact .inl ⟨.exists_, rfl, rfl⟩

theorem SameShape.attempt (h : SameShape fs fs') (hwf : fs.WellFormed) (hlf : fs.LinkFree)
    (hp : path.isAbsolute) :
    (fs'.attempt path).2 = (fs.attempt path).2 ∧
    SameShape (fs.attempt path).1 (fs'.attempt path).1 := by
  rw [FileSystem.attempt, FileSystem.attempt]
  cases h.makeDirectory hwf hlf hp with
  | inl hcase =>
    obtain ⟨e, hm, hm'⟩ := hcase
    rw [hm, hm', h.isDirectory hlf hp]
    exact ⟨rfl, h⟩
  | inr hcase =>
    obtain ⟨made, made', hm, hm', hmade⟩ := hcase
    rw [hm, hm']
    exact ⟨rfl, hmade⟩

theorem SameShape.makeDirectories (h : SameShape fs fs') (hwf : fs.WellFormed) (hlf : fs.LinkFree)
    (hp : path.isAbsolute) (fuel : Nat) :
    (fs'.makeDirectories path fuel).2 = (fs.makeDirectories path fuel).2 ∧
      SameShape (fs.makeDirectories path fuel).1 (fs'.makeDirectories path fuel).1 := by
  induction fuel generalizing path with
  | zero => exact ⟨rfl, h⟩
  | succ fuel ih =>
    rw [makeDirectories_succ hp, makeDirectories_succ hp]
    have hattempt := h.attempt hwf hlf hp
    cases h.makeDirectory hwf hlf hp with
    | inl hcase =>
      obtain ⟨e, hm, hm'⟩ := hcase
      rw [hm, hm']
      by_cases he : e = .notFound
      · subst he
        cases hparent : path.parent? with
        | none => exact ⟨rfl, h⟩
        | some parent =>
          have habs := Path.isAbsolute_parent? hp hparent
          obtain ⟨hsame, habove⟩ := ih habs
          have hgrows := makeDirectories_grows hwf habs fuel
          cases hmk : fs.makeDirectories parent fuel with
          | mk above e =>
            cases hmk' : fs'.makeDirectories parent fuel with
            | mk above' e' =>
              rw [hmk, hmk'] at hsame habove
              rw [hmk] at hgrows
              simp only at hsame
              subst hsame
              simp only [hmk, hmk']
              cases e' with
              | some e => exact ⟨rfl, habove⟩
              | none => exact habove.attempt hgrows.wellFormed (hgrows.linkFree hlf) hp
      · cases e with
        | notFound => exact absurd rfl he
        | _ => exact hattempt
    | inr hcase =>
      obtain ⟨made, made', hm, hm', -⟩ := hcase
      rw [hm, hm']
      exact hattempt

theorem SameShape.makeAll (h : SameShape fs fs') (hwf : fs.WellFormed) (hlf : fs.LinkFree)
    (hp : path.isAbsolute) :
    (fs'.makeAll path).2 = (fs.makeAll path).2 ∧
    SameShape (fs.makeAll path).1 (fs'.makeAll path).1 :=
  h.makeDirectories hwf hlf hp _

end FileSystem

namespace Builder

variable {b : Builder} {fs fs' : FileSystem} {s : Place} {rel : Path}

theorem mem_files_of_sameShape (hwf : fs.WellFormed) (hlf : fs.LinkFree) (hs : fs.Leads b.source s)
    (h : SameShape fs fs') : rel ∈ files (b.collect fs').1 ↔ rel ∈ files (b.collect fs).1 := by
  rw [mem_files_iff h.wellFormed h.linkFree (hs.mono hwf h.directory), mem_files_iff hwf hlf hs]
  constructor
  · intro hcase
    obtain ⟨names, hrel, hlisted⟩ := hcase
    exact ⟨names, hrel, hlisted.of_file (h.file_iff.1 hlisted.file)⟩
  · intro hex
    obtain ⟨names, hrel, hlisted⟩ := hex
    exact ⟨names, hrel, hlisted.of_file (h.file_iff.2 hlisted.file)⟩

end Builder
end StaticSite
