import StaticSite.Config
import StaticSite.Proofs.Lookup

/-! What loading a configuration makes sure of. The source is the real path of a directory; the
destination is a real path if it was there, and does not hold the source then. -/
namespace StaticSite.Config

variable {fs : FileSystem} {c : Config} {cli : CommandLine}

theorem normalize_of_stat {p : Path} {q : Place} {n : Node} (h : fs.stat p = .ok (q, n)) :
    normalize fs p = .ofPlace q := by
  simp [normalize, FileSystem.canonical, h, Except.map]

theorem normalize_of_error {p : Path} {e : IoError} (hp : p.isAbsolute) (h : fs.stat p = .error e) :
    normalize fs p = p := by
  simp [normalize, FileSystem.canonical, h, Except.map, hp]

theorem isAbsolute_normalize (fs : FileSystem) (p : Path) : (normalize fs p).isAbsolute := by
  cases h : fs.stat p with
  | ok r =>
    rw [normalize_of_stat h]
    exact Path.isAbsolute_ofPlace r.1
  | error e =>
    by_cases hp : p.isAbsolute
    · rwa [normalize_of_error hp h]
    · have hn : normalize fs p = (Path.ofPlace fs.here).join p := by
        simp [normalize, FileSystem.canonical, h, Except.map, hp]
      rw [hn]
      exact Path.isAbsolute_join_left (Path.isAbsolute_ofPlace _)

/-- A path that was resolved: a real one of something that is there, or one that leads nowhere. -/
inductive Resolved (fs : FileSystem) (p : Path) : Prop
  | real (q : Place) (n : Node) (path : p = .ofPlace q) (node : fs.at? q = some n)
      (noLink : n.isLink = false)
  | missing (e : IoError) (absolute : p.isAbsolute) (stat : fs.stat p = .error e)

theorem resolved_normalize (hfs : fs.WellFormed) {p : Path} (hp : p.isAbsolute) :
    Resolved fs (normalize fs p) := by
  cases h : fs.stat p with
  | ok r =>
    obtain ⟨hat, hlink⟩ := hfs.at?_of_stat hp h
    exact .real r.1 r.2 (normalize_of_stat h) hat hlink
  | error e =>
    rw [normalize_of_error hp h]
    exact .missing e hp h

theorem Resolved.isAbsolute {p : Path} (h : Resolved fs p) : p.isAbsolute := by
  cases h with
  | real q _ path => exact path ▸ Path.isAbsolute_ofPlace q
  | missing _ absolute => exact absolute

theorem Resolved.eq_ofPlace {p : Path} {q : Place} {n : Node} (hfs : fs.WellFormed)
    (h : Resolved fs p) (hs : fs.stat p = .ok (q, n)) : p = .ofPlace q := by
  cases h with
  | real q' n' path node noLink =>
    cases hfs.stat_ofPlace node noLink with
    | inl h' =>
      rw [path, h', Except.ok.injEq, Prod.mk.injEq] at hs
      rw [path, hs.1]
    | inr hcase =>
      obtain ⟨-, e, h'⟩ := hcase
      rw [path, h'] at hs
      simp at hs
  | missing e absolute stat => simp [stat] at hs

/-- What holds of every loaded configuration. -/
structure Loaded (fs : FileSystem) (c : Config) : Prop where
  source : ∃ s t, c.source = .ofPlace s ∧ fs.stat c.source = .ok (s, .directory t)
  destination : Resolved fs c.destination
  layouts : Resolved fs c.layouts
  includes : Resolved fs c.includes
  apart : c.source.startsWith c.destination = false
  templates : ∀ ext ∈ c.templates, isBareExtension ext

theorem Loaded.isAbsolute_source (h : Loaded fs c) : c.source.isAbsolute := by
  obtain ⟨s, t, hs, -⟩ := h.source
  exact (congrArg Path.isAbsolute hs).trans (Path.isAbsolute_ofPlace s)

theorem complaint_eq_none (h : c.complaint fs = none) :
    fs.isDirectory c.source ∧ c.source.startsWith c.destination = false ∧
      ∀ ext ∈ c.templates, isBareExtension ext := by
  rw [complaint] at h
  split at h
  · simp at h
  next hdir =>
    split at h
    · simp at h
    next hstart =>
      refine ⟨by simpa using hdir, by simpa using hstart, ?_⟩
      simpa using h

theorem loaded_of_load (hfs : fs.WellFormed) (h : load fs cli = .ok c) : Loaded fs c := by
  rw [load] at h
  split at h
  · simp at h
  next c₀ _ =>
    simp only at h
    split at h
    · simp at h
    next hnone =>
      rw [Except.ok.injEq] at h
      obtain ⟨hdir, happart, htemplates⟩ := complaint_eq_none hnone
      rw [h] at hdir happart htemplates
      have hroot : (normalize fs (rootOr cli.root)).isAbsolute := isAbsolute_normalize fs _
      have hsource : Resolved fs c.source := by
        rw [← h]
        exact resolved_normalize hfs (Path.isAbsolute_join_left hroot)
      have hjoin (p : Path) : Resolved fs (normalize fs (c.source.join p)) :=
        resolved_normalize hfs (Path.isAbsolute_join_left hsource.isAbsolute)
      refine ⟨?_, ?_, ?_, ?_, happart, htemplates⟩
      · obtain ⟨s, t, hs⟩ := FileSystem.isDirectory_iff.1 hdir
        exact ⟨s, t, hsource.eq_ofPlace hfs hs, hs⟩
      · rw [← h]
        exact resolved_normalize hfs (Path.isAbsolute_join_left hroot)
      · have := hjoin (c₀.override cli).layouts
        rw [← h] at this ⊢
        exact this
      · have := hjoin (c₀.override cli).includes
        rw [← h] at this ⊢
        exact this

end StaticSite.Config
