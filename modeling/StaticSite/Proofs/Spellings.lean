import Mathlib
import StaticSite.Proofs.NameParts

/-! Exclusion and spelling. A path that is left out by one of its parts is left out however it is
spelled: with separators before it, and with either separator between its parts. That it is spelled
otherwise matters for the configured names, which are compared with the whole text too, for a drive,
which is no directory where the path begins with it, and for reserved paths, which have slashes
between their parts. -/
namespace StaticSite

namespace Name

variable {lead t : Text}

/-- The drive that a name begins with, if there is something below it. -/
def drive? (t : Text) : Option Text := (parts t).dropLast.head?.filter isDrive

theorem parts_append_separators (h : ∀ c ∈ lead, isSeparator c = true) (t : Text) :
    parts (lead ++ t) = List.replicate lead.length [] ++ parts t := by
  induction lead with
  | nil => rfl
  | cons c lead ih =>
    obtain ⟨hc, hlead⟩ := List.forall_mem_cons.1 h
    have hstart : parts (c :: (lead ++ t)) = [] :: parts (lead ++ t) :=
      parts_append_separator hc [] (lead ++ t)
    rw [List.cons_append, hstart, ih hlead]
    rfl

theorem basename_append_separators (h : ∀ c ∈ lead, isSeparator c = true) (t : Text) :
    basename (lead ++ t) = basename t := by
  rw [basename, basename, parts_append_separators h,
    List.getLast?_append_of_ne_nil _ (parts_ne_nil t)]

theorem segments_append_separators (h : ∀ c ∈ lead, isSeparator c = true) (hne : lead ≠ [])
    (t : Text) :
    segments (lead ++ t) = (drive? t).toList ++ segments t := by
  obtain ⟨c, rest, rfl⟩ := List.exists_cons_of_ne_nil hne
  have hempty : (List.replicate rest.length ([] : Text)).filter (· ≠ []) = [] := by simp
  have hlead : segments (c :: rest ++ t) = ((parts t).dropLast).filter (· ≠ []) := by
    rw [segments_eq, parts_append_separators h, List.dropLast_append_of_ne_nil (parts_ne_nil t),
      List.length_cons, List.replicate_succ, List.cons_append, withoutDrive_cons,
      if_neg (by decide), List.filter_cons_of_neg (by simp),
      List.filter_append, hempty, List.nil_append]
  rw [hlead, segments_eq, drive?]
  cases (parts t).dropLast with
  | nil => rfl
  | cons first dirs =>
    rw [withoutDrive_cons]
    by_cases hdrive : isDrive first = true
    · have hfirst : first ≠ [] := by
        rintro rfl
        simp [isDrive] at hdrive
      rw [if_pos hdrive, List.filter_cons_of_pos (by simpa using hfirst), List.head?_cons,
        Option.filter_some_pos hdrive]
      rfl
    · rw [if_neg hdrive, List.head?_cons, Option.filter_some_neg (by simpa using hdrive)]
      rfl

theorem trimRoot_append_separators (h : ∀ c ∈ lead, isSeparator c = true) (t : Text) :
    trimRoot (lead ++ t) = trimRoot t :=
  List.dropWhile_append_of_pos h

end Name

namespace ExclusionPolicy

variable {policy : ExclusionPolicy} {c : Config} {lead p q t part : Text}

/-- That a part of a path is left out, with all that is below it. -/
def Marks (policy : ExclusionPolicy) (part : Text) : Prop := isPrivate part ∨ part ∈ policy.names

/-- That a path is left out by its name or by one of its directories. -/
def MarksPart (policy : ExclusionPolicy) (t : Text) : Prop :=
  policy.Marks (Name.basename t) ∨ ∃ dir ∈ Name.segments t, policy.Marks dir

theorem marksPart_of_mem (hnone : ∀ c ∈ t, Name.isSeparator c = false) (h : t ∈ policy.names) :
    policy.MarksPart t := by
  have hbase : Name.basename t = t := Name.basename_append (.inl rfl) hnone
  exact .inl (.inr (hbase.symm ▸ h))

theorem none_of_mem_alwaysExcluded (h : t ∈ alwaysExcluded) :
    ∀ c ∈ t, Name.isSeparator c = false := by
  simp only [alwaysExcluded, List.mem_cons, List.not_mem_nil, or_false] at h
  rcases h with rfl | rfl <;> simp [Name.isSeparator]

theorem excludes_iff_marksPart :
    (ofConfig c).excludes t ↔ (ofConfig c).MarksPart t ∨ (ofConfig c).isReserved t ∨
    t ∈ c.exclude := by
  have hnames : t ∈ (ofConfig c).names ↔ t ∈ alwaysExcluded ∨ t ∈ c.exclude := List.mem_append
  rw [excludes_iff, or_comm (a := _ ∈ _), MarksPart, Marks]
  constructor
  · rintro (hbase | hwhole | hdir | hreserved)
    · exact .inl (.inl hbase)
    · rcases hnames.1 hwhole with halways | hexclude
      · exact .inl (marksPart_of_mem (none_of_mem_alwaysExcluded halways) hwhole)
      · exact .inr (.inr hexclude)
    · exact .inl (.inr hdir)
    · exact .inr (.inl hreserved)
  · rintro ((hbase | hdir) | hreserved | hexclude)
    · exact .inl hbase
    · exact .inr (.inr (.inl hdir))
    · exact .inr (.inr (.inr hreserved))
    · exact .inr (.inl (hnames.2 (.inr hexclude)))

theorem isReserved_append_separators (h : ∀ c ∈ lead, Name.isSeparator c = true) (t : Text) :
    policy.isReserved (lead ++ t) = policy.isReserved t := by
  rw [isReserved, isReserved, Name.trimRoot_append_separators h]

theorem marksPart_append_separators (h : ∀ c ∈ lead, Name.isSeparator c = true) (hne : lead ≠ []) :
    policy.MarksPart (lead ++ t) ↔
      policy.MarksPart t ∨ ∃ drive, Name.drive? t = some drive ∧ policy.Marks drive := by
  have hdirs : (∃ dir ∈ Name.segments (lead ++ t), policy.Marks dir) ↔
      (∃ drive, Name.drive? t = some drive ∧ policy.Marks drive) ∨
        ∃ dir ∈ Name.segments t, policy.Marks dir := by
    simp only [Name.segments_append_separators h hne, List.mem_append, Option.mem_toList,
      or_and_right, exists_or]
  rw [MarksPart, MarksPart, Name.basename_append_separators h, hdirs, or_assoc]
  exact or_congr_right or_comm

theorem marksPart_respelled (h : Name.Respelled p q) : policy.MarksPart q ↔ policy.MarksPart p := by
  rw [MarksPart, MarksPart, h.basename_eq, h.segments_eq]

/-- With separators before it a path has the same answer exactly if a part of it leaves it out, or
if it is reserved, or if it is configured by its whole text just when the longer text is configured
or begins with a marked drive. With other separators in it, it has the same answer exactly if a part
of it leaves it out, or if both texts are reserved or configured or none is. Where no configured
name has a separator, only a marked drive and the reserved paths matter. -/
theorem excludes_spelled_iff (hlead : ∀ d ∈ lead, Name.isSeparator d = true) (hne : lead ≠ [])
    (hq : Name.Respelled p q) :
    ((ofConfig c).excludes (lead ++ p) = (ofConfig c).excludes p ↔
      (ofConfig c).MarksPart p ∨ (ofConfig c).isReserved p ∨
        (p ∈ c.exclude ↔
          lead ++ p ∈ c.exclude ∨ ∃ drive, Name.drive? p = some drive ∧ (ofConfig c).Marks drive)) ∧
    ((ofConfig c).excludes q = (ofConfig c).excludes p ↔
      (ofConfig c).MarksPart p ∨
        ((ofConfig c).isReserved p ∨ p ∈ c.exclude ↔ (ofConfig c).isReserved q ∨ q ∈ c.exclude)) ∧
    ((∀ name ∈ c.exclude, ∀ d ∈ name, Name.isSeparator d = false) →
      ((ofConfig c).excludes (lead ++ p) = (ofConfig c).excludes p ↔
        (ofConfig c).MarksPart p ∨ (ofConfig c).isReserved p ∨
          ¬∃ drive, Name.drive? p = some drive ∧ (ofConfig c).Marks drive) ∧
      ((ofConfig c).excludes q = (ofConfig c).excludes p ↔
        (ofConfig c).MarksPart p ∨ ((ofConfig c).isReserved p ↔ (ofConfig c).isReserved q))) := by
  have hbefore : (ofConfig c).excludes (lead ++ p) = (ofConfig c).excludes p ↔
      (ofConfig c).MarksPart p ∨ (ofConfig c).isReserved p ∨
        (p ∈ c.exclude ↔
          lead ++ p ∈ c.exclude ∨ ∃ drive, Name.drive? p = some drive ∧
          (ofConfig c).Marks drive) := by
    have hregroup (part drive place whole other : Prop) :
        ((part ∨ drive) ∨ place ∨ other ↔ part ∨ place ∨ whole) ↔
          part ∨ place ∨ (whole ↔ other ∨ drive) := by tauto
    rw [Bool.eq_iff_iff, excludes_iff_marksPart, excludes_iff_marksPart,
      marksPart_append_separators hlead hne, isReserved_append_separators hlead]
    exact hregroup ..
  have hbetween : (ofConfig c).excludes q = (ofConfig c).excludes p ↔
      (ofConfig c).MarksPart p ∨
        ((ofConfig c).isReserved p ∨ p ∈ c.exclude ↔ (ofConfig c).isReserved q ∨
          q ∈ c.exclude) := by
    have hregroup (part whole other : Prop) : (part ∨ other ↔ part ∨ whole) ↔
        part ∨ (whole ↔ other) := by
      tauto
    rw [Bool.eq_iff_iff, excludes_iff_marksPart, excludes_iff_marksPart, marksPart_respelled hq]
    exact hregroup ..
  refine ⟨hbefore, hbetween, fun hnames => ?_⟩
  have hname {t : Text} (ht : t ∈ c.exclude) : (ofConfig c).MarksPart t :=
    marksPart_of_mem (hnames t ht) (List.mem_append_right _ ht)
  have hlong : lead ++ p ∉ c.exclude := by
    obtain ⟨d, rest, rfl⟩ := List.exists_cons_of_ne_nil hne
    intro hmem
    have hd := hnames _ hmem d (by simp)
    rw [hlead d (by simp)] at hd
    cases hd
  -- A text that is configured and has no separator is a part of itself, so it leaves itself out.
  by_cases hpart : (ofConfig c).MarksPart p
  · exact ⟨iff_of_true (hbefore.2 (.inl hpart)) (.inl hpart),
      iff_of_true (hbetween.2 (.inl hpart)) (.inl hpart)⟩
  · have hshort : p ∉ c.exclude := mt hname hpart
    have hother : q ∉ c.exclude := fun hmem => hpart ((marksPart_respelled hq).1 (hname hmem))
    rw [hbefore, hbetween]
    simp only [hpart, hshort, hlong, hother, false_or, or_false, false_iff, and_self]

/-- A site with names that are configured by their whole text, one of them in a directory that is
left out too, and with the name of a drive. -/
def spelledConfig : Config where
  root := some (.ofString "/w")
  configPath := .ofString "/w/_config.toml"
  source := .ofString "/w"
  destination := .ofString "/w/public"
  layouts := .ofString "/w/_layouts"
  includes := .ofString "/w/_includes"
  exclude := ["/blog/index.html".toList, "/vendor/a.js".toList, "vendor".toList, "C:".toList]

/-- The directory of the file is left out, so it does not matter that the longer text is configured
and the other is not. -/
theorem spelledConfig_vendor :
    (ofConfig spelledConfig).excludes ("/".toList ++ "vendor/a.js".toList) =
        (ofConfig spelledConfig).excludes "vendor/a.js".toList ∧
      (ofConfig spelledConfig).excludes "vendor\\a.js".toList = (ofConfig spelledConfig).excludes
      "vendor/a.js".toList := by
  have hlead : ∀ d ∈ "/".toList, Name.isSeparator d = true := by simp [Name.isSeparator]
  have hdirs : Name.segments "vendor/a.js".toList = ["vendor".toList] := by cbv
  have hrespelled : Name.Respelled "vendor/a.js".toList "vendor\\a.js".toList := by
    simp [Name.Respelled, Name.isSeparator]
  have hmarks : (ofConfig spelledConfig).MarksPart "vendor/a.js".toList :=
    .inr ⟨"vendor".toList, hdirs ▸ List.mem_singleton_self _, .inr (by decide)⟩
  obtain ⟨hbefore, hbetween, -⟩ :=
    excludes_spelled_iff (c := spelledConfig) hlead (by decide) hrespelled
  exact ⟨hbefore.2 (.inl hmarks), hbetween.2 (.inl hmarks)⟩

/-- Not every spelling of a path has the same answer: of a path that is configured by its whole
text, of one that begins with a marked drive, and of one that is reserved. -/
theorem spelling_not_always_ignored :
    ((ofConfig spelledConfig).excludes "/blog/index.html".toList = true ∧
      (ofConfig spelledConfig).excludes "blog/index.html".toList = false ∧
      (ofConfig spelledConfig).excludes "\\blog/index.html".toList = false) ∧
    ((ofConfig spelledConfig).excludes "/C:/a.txt".toList = true ∧
      (ofConfig spelledConfig).excludes "C:/a.txt".toList = false) ∧
    ((ofConfig spelledConfig).excludes "public/a.txt".toList = true ∧
      (ofConfig spelledConfig).excludes "public\\a.txt".toList = false) ∧
    ¬∀ (c : Config) (lead p q : Text), (∀ d ∈ lead, Name.isSeparator d = true) →
      Name.Respelled p q →
      (ofConfig c).excludes (lead ++ p) = (ofConfig c).excludes p ∧
        (ofConfig c).excludes q = (ofConfig c).excludes p := by
  have hwhole : (ofConfig spelledConfig).excludes "/blog/index.html".toList = true := by cbv
  have hshort : (ofConfig spelledConfig).excludes "blog/index.html".toList = false := by cbv
  refine ⟨⟨hwhole, hshort, by cbv⟩, ⟨by cbv, by cbv⟩, ⟨by cbv, by cbv⟩, fun h => ?_⟩
  have hlead : ∀ d ∈ "/".toList, Name.isSeparator d = true := by simp [Name.isSeparator]
  have hsame := (h spelledConfig "/".toList "blog/index.html".toList "blog/index.html".toList hlead
    (List.forall₂_same.2 fun _ _ => .inl rfl)).1
  rw [hshort] at hsame
  exact absurd (hwhole.symm.trans hsame) (by decide)

end ExclusionPolicy
end StaticSite
