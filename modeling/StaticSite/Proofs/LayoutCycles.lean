import Mathlib
import StaticSite.Proofs.LayoutChains

/-! That the loop over the layouts of a page ends, and when it ends in a cycle. Names are free: many
may lead to one file. But all names but the first stand in files, and a file names one layout at
most; so there are not more names than files before one comes again. -/
namespace StaticSite
namespace LayoutResolver

variable {s : LayoutResolver} {page : FrontMatter} {body inner outer : Rendered}
  {names chain taken rendered : List Text}
  {name : Text} {next : Option Text} {layout : Document} {places : List Place}
  {result : Except RenderError Rendered}

/-- The loop with no bound on its turns, from names that have been followed: the names that its
turns take up, those of the layouts that they render, and what it ends in. That a run is there says
that the loop ends. -/
inductive Loop (s : LayoutResolver) (page : FrontMatter) :
    List Text → Option Text → Rendered → List Text → List Text → Except RenderError Rendered → Prop
  | done {names : List Text} {inner : Rendered} : Loop s page names none inner [] [] (.ok inner)
  | again {names : List Text} {name : Text} {inner : Rendered} (hmem : name ∈ names) :
      Loop s page names (some name) inner [name] [] (.error (.cycle (names ++ [name])))
  | lost {names : List Text} {name : Text} {inner : Rendered} {e : RenderError}
      (hmem : name ∉ names)
      (hlost : s.layout name = .error e) : Loop s page names (some name) inner [name] [] (.error e)
  | failed {names : List Text} {name : Text} {inner : Rendered} {layout : Document}
      {e : RenderError}
      (hmem : name ∉ names) (hfound : s.layout name = .ok layout)
      (hfailed : s.wrapOnce page name inner layout = .error e) :
      Loop s page names (some name) inner [name] [name] (.error e)
  | wrapped {names taken rendered : List Text} {name : Text} {inner outer : Rendered}
      {layout : Document}
      {result : Except RenderError Rendered} (hmem : name ∉ names)
        (hfound : s.layout name = .ok layout)
      (hrendered : s.wrapOnce page name inner layout = .ok outer)
      (later : Loop s page (names ++ [name]) (next? layout) outer taken rendered result) :
      Loop s page names (some name) inner (name :: taken) (name :: rendered) result

theorem layout_ne_cycle : s.layout name ≠ .error (.cycle chain) := by
  rw [LayoutResolver.layout]
  split
  · simp
  next t ht =>
    rw [Document.ofText]
    split
    · simp
    · simp
    · split <;> simp

theorem wrapOnce_ne_cycle : s.wrapOnce page name inner layout ≠ .error (.cycle chain) := by
  intro h
  rw [wrapOnce] at h
  cases hr : Template.render s.snippets ⟨page, some inner.text⟩ (s.layoutPath name) layout.body with
  | error e =>
    rw [hr] at h
    cases h
    exact Template.renderLines_ne_cycle hr
  | ok r => simp [hr, Except.map] at h

theorem nodup_followed (hnodup : names.Nodup) (hmem : name ∉ names) : (names ++ [name]).Nodup := by
  simpa using hnodup.concat hmem

namespace Loop

theorem unique {taken' rendered' : List Text} {result' : Except RenderError Rendered}
    (h : Loop s page names next inner taken rendered result)
    (h' : Loop s page names next inner taken' rendered' result') :
    taken' = taken ∧ rendered' = rendered ∧ result' = result := by
  -- The first turns are of one kind, as each kind says what the others deny: the name is new or
  -- not, its layout is there or not, and it is rendered or not.
  induction h generalizing taken' rendered' result' with
  | done =>
    cases h'
    exact ⟨rfl, rfl, rfl⟩
  | again hmem =>
    cases h' with
    | again => exact ⟨rfl, rfl, rfl⟩
    | lost hnew | failed hnew | wrapped hnew => exact absurd hmem hnew
  | lost hmem hlost =>
    cases h' with
    | again hin => exact absurd hin hmem
    | lost _ hlost' =>
      rw [hlost] at hlost'
      cases hlost'
      exact ⟨rfl, rfl, rfl⟩
    | failed _ hfound | wrapped _ hfound =>
      rw [hlost] at hfound
      cases hfound
  | failed hmem hfound hfailed =>
    cases h' with
    | again hin => exact absurd hin hmem
    | lost _ hlost =>
      rw [hfound] at hlost
      cases hlost
    | failed _ hfound' hfailed' =>
      rw [hfound] at hfound'
      cases hfound'
      rw [hfailed] at hfailed'
      cases hfailed'
      exact ⟨rfl, rfl, rfl⟩
    | wrapped _ hfound' hrendered =>
      rw [hfound] at hfound'
      cases hfound'
      rw [hfailed] at hrendered
      cases hrendered
  | wrapped hmem hfound hrendered later ih =>
    cases h' with
    | again hin => exact absurd hin hmem
    | lost _ hlost =>
      rw [hfound] at hlost
      cases hlost
    | failed _ hfound' hfailed =>
      rw [hfound] at hfound'
      cases hfound'
      rw [hrendered] at hfailed
      cases hfailed
    | wrapped _ hfound' hrendered' later' =>
      rw [hfound] at hfound'
      cases hfound'
      rw [hrendered] at hrendered'
      cases hrendered'
      obtain ⟨rfl, rfl, rfl⟩ := ih later'
      exact ⟨rfl, rfl, rfl⟩

theorem length_le (hplaces : s.Holds places)
    (h : Loop s page names next inner taken rendered result)
    (hfollowed : Followed s page body names next inner) (hnodup : names.Nodup) :
    names.length + taken.length ≤ places.length + 2 := by
  induction h with
  | done | again | lost | failed =>
    have hlen := hfollowed.length_le hplaces hnodup
    simp only [List.length_nil, List.length_singleton]
    omega
  | wrapped hmem hfound hrendered later ih =>
    have hlater := ih (hfollowed.wrap hfound hrendered) (nodup_followed hnodup hmem)
    rw [List.length_append, List.length_singleton] at hlater
    rw [List.length_cons]
    omega

theorem nodup_rendered (h : Loop s page names next inner taken rendered result)
    (hnodup : names.Nodup) :
    (names ++ rendered).Nodup := by
  induction h with
  | done | again | lost => rwa [List.append_nil]
  | failed hmem => exact nodup_followed hnodup hmem
  | wrapped hmem hfound hrendered later ih =>
    have hlater := ih (nodup_followed hnodup hmem)
    rwa [List.append_assoc] at hlater

theorem followed_of_cycle (h : Loop s page names next inner taken rendered result)
    (hfollowed : Followed s page body names next inner) (hnodup : names.Nodup)
    (hresult : result = .error (.cycle chain)) :
    ∃ before name inner, chain = before ++ [name] ∧ Followed s page body before (some name) inner ∧
      before.Nodup ∧
      name ∈ before := by
  induction h with
  | done => cases hresult
  | again hmem =>
    cases hresult
    exact ⟨_, _, _, rfl, hfollowed, hnodup, hmem⟩
  | lost _ hlost =>
    cases hresult
    exact absurd hlost layout_ne_cycle
  | failed _ _ hfailed =>
    cases hresult
    exact absurd hfailed wrapOnce_ne_cycle
  | wrapped hmem hfound hrendered later ih =>
    exact ih (hfollowed.wrap hfound hrendered) (nodup_followed hnodup hmem) hresult

end Loop

/-- The bound on the turns is never met, so the loop runs as if there were none. -/
theorem exists_loop (hfollowed : Followed s page body names next inner) (hnodup : names.Nodup) :
    ∃ taken rendered, Loop s page names next inner taken rendered
      (s.wrapFrom page (s.files.nodes.length + 2 - names.length) names next inner) := by
  generalize hfuel : s.files.nodes.length + 2 - names.length = fuel
  induction fuel generalizing names next inner with
  | zero =>
    have hlen := hfollowed.length_le s.holds_nodes hnodup
    rw [List.length_map] at hlen
    omega
  | succ fuel ih =>
    cases next with
    | none => exact ⟨[], [], .done⟩
    | some name =>
      by_cases hmem : name ∈ names
      · rw [wrapFrom_again _ hmem]
        exact ⟨_, _, .again hmem⟩
      · rw [wrapFrom, if_neg hmem]
        cases hfound : s.layout name with
        | error e => exact ⟨_, _, .lost hmem hfound⟩
        | ok layout =>
          cases hrendered : s.wrapOnce page name inner layout with
          | error e =>
            simp only [hrendered]
            exact ⟨_, _, .failed hmem hfound hrendered⟩
          | ok outer =>
            simp only [hrendered]
            have hrest : s.files.nodes.length + 2 - (names ++ [name]).length = fuel := by
              rw [List.length_append, List.length_singleton]
              omega
            obtain ⟨taken, rendered, hlater⟩ :=
              ih (hfollowed.wrap hfound hrendered) (nodup_followed hnodup hmem) hrest
            exact ⟨_, _, .wrapped hmem hfound hrendered hlater⟩

theorem Followed.nodup_or_again (h : Followed s page body names next inner) :
    names.Nodup ∨ ∃ before name inner, before ++ [name] <+: names ∧
    Followed s page body before (some name) inner ∧
      before.Nodup ∧ name ∈ before := by
  induction h with
  | start => exact .inl List.nodup_nil
  | @wrap names name inner outer layout before hfound hrendered ih =>
    cases ih with
    | inl hnodup =>
      by_cases hmem : name ∈ names
      · exact .inr ⟨names, name, inner, List.prefix_refl _, before, hnodup, hmem⟩
      · exact .inl (nodup_followed hnodup hmem)
    | inr hagain =>
      obtain ⟨earlier, again, there, hprefix, hfirst⟩ := hagain
      exact .inr ⟨earlier, again, there, hprefix.trans (List.prefix_append _ _), hfirst⟩

theorem wrap_eq_cycle_iff :
    s.wrap page body = .error (.cycle chain) ↔ ∃ before name inner, chain = before ++ [name] ∧
      Followed s page body before (some name) inner ∧ before.Nodup ∧ name ∈ before := by
  constructor
  · intro h
    obtain ⟨taken, rendered, hloop⟩ :=
      exists_loop (.start : Followed s page body [] _ body) List.nodup_nil
    exact hloop.followed_of_cycle .start List.nodup_nil h
  · rintro ⟨before, name, inner, rfl, hfollowed, hnodup, hmem⟩
    rw [wrap_of_followed hfollowed hnodup, wrapFrom_again _ hmem]

/-- The loop over the layouts ends, in one way, after no more turns than there are layout files and
two; it renders no layout under a name twice. It ends in a cycle just if the names lead to one that
was followed before, each layout up to there being found, parsed and rendered; the chain then goes
up to the first such name. -/
theorem wrap_ends (hplaces : s.Holds places) :
    (∃ taken rendered,
        (∀ t r result, Loop s page [] page.layout? body t r result ↔
          t = taken ∧ r = rendered ∧ result = s.wrap page body) ∧
          taken.length ≤ places.length + 2 ∧ rendered.Nodup) ∧
      ((∃ chain, s.wrap page body = .error (.cycle chain)) ↔
        ∃ names name inner, Followed s page body names (some name) inner ∧ name ∈ names) ∧
      (∀ chain, s.wrap page body = .error (.cycle chain) ↔
        ∃ names name inner, chain = names ++ [name] ∧
        Followed s page body names (some name) inner ∧ names.Nodup ∧ name ∈ names) ∧
      ∀ chain, chain.Nodup → s.wrap page body ≠ .error (.cycle chain) := by
  refine ⟨?_, ⟨?_, ?_⟩, fun chain => wrap_eq_cycle_iff, ?_⟩
  · obtain ⟨taken, rendered, hloop⟩ :=
      exists_loop (.start : Followed s page body [] _ body) List.nodup_nil
    have hlen := hloop.length_le hplaces .start List.nodup_nil
    rw [List.length_nil, Nat.zero_add] at hlen
    refine ⟨taken, rendered, fun t r result => ⟨hloop.unique, ?_⟩, hlen,
      hloop.nodup_rendered List.nodup_nil⟩
    rintro ⟨rfl, rfl, rfl⟩
    exact hloop
  · rintro ⟨chain, h⟩
    obtain ⟨names, name, inner, -, hfollowed, -, hmem⟩ := wrap_eq_cycle_iff.1 h
    exact ⟨names, name, inner, hfollowed, hmem⟩
  · rintro ⟨names, name, inner, hfollowed, hmem⟩
    cases hfollowed.nodup_or_again with
    | inl hnodup =>
      exact ⟨_, wrap_eq_cycle_iff.2 ⟨names, name, inner, rfl, hfollowed, hnodup, hmem⟩⟩
    | inr hagain =>
      obtain ⟨before, again, there, -, hfirst⟩ := hagain
      exact ⟨_, wrap_eq_cycle_iff.2 ⟨before, again, there, rfl, hfirst⟩⟩
  · intro chain hnodup h
    obtain ⟨names, name, inner, rfl, -, -, hmem⟩ := wrap_eq_cycle_iff.1 h
    exact (List.nodup_append.1 hnodup).2.2 name hmem name (List.mem_singleton_self name) rfl

/-- A layout that names itself by another name. -/
def ownLayout : LayoutResolver where
  files :=
    { nodes := [(["l".toList], .directory 0),
        (["l".toList, "a.html".toList],
          .file (Text.Utf8.encode "---\nlayout: ./a\n---\n".toList) 1)]
      here := []
      clock := 1 }
  includes := .ofString "/i"
  layouts := .ofString "/l"

def ownPage : FrontMatter := ⟨[("layout".toList, .string "a".toList)]⟩

theorem ownLayout_holds : ownLayout.Holds [["l".toList, "a.html".toList]] := by
  intro name q content t hstat
  have hat := at?_of_stat_file hstat
  have hne : q ≠ [] := by
    rintro rfl
    cases hat
  have hmem := FileSystem.mem_nodes_of_at? hne hat
  simp only [ownLayout, List.mem_cons, Prod.mk.injEq, reduceCtorEq, and_false, false_or,
    List.not_mem_nil, or_false] at hmem
  exact List.mem_singleton.2 hmem.1

theorem ownLayout_layout {t : Text} (ht : t = "a".toList ∨ t = "./a".toList) :
    ∃ d, ownLayout.layout t = .ok d ∧ next? d = some "./a".toList ∧ d.body = [] := by
  obtain rfl | rfl := ht
  · exact layout_of_readText (t := "---\nlayout: ./a\n---\n".toList) (by cbv) (by decide +kernel)
  · exact layout_of_readText (t := "---\nlayout: ./a\n---\n".toList) (by cbv) (by decide +kernel)

/-- Two names for one file: the loop takes as many turns as it may. -/
theorem ownLayout_ends :
    ∃ taken rendered, Loop ownLayout ownPage [] ownPage.layout? ⟨[], []⟩ taken rendered
        (.error (.cycle ["a".toList, "./a".toList, "./a".toList])) ∧
      taken.length ≤ 1 + 2 ∧ rendered.Nodup := by
  obtain ⟨first, hfirst, hnext, hbody⟩ := ownLayout_layout (.inl rfl)
  obtain ⟨second, hsecond, hagain, hbody'⟩ := ownLayout_layout (.inr rfl)
  have hrender (name : Text) (inner : Rendered) {d : Document} (hd : d.body = []) :
      ownLayout.wrapOnce ownPage name inner d = .ok ⟨['\n'], inner.advisories⟩ := by
    have hscan : Line.scan [] = ⟨[], [], none⟩ := by cbv
    rw [wrapOnce, hd]
    simp [Template.render, Template.renderLines, Text.splitBy, hscan, Template.lineText,
      Template.tagsText, Except.map]
  have hstart : Followed ownLayout ownPage ⟨[], []⟩ [] (some "a".toList) ⟨[], []⟩ := .start
  have honce := hstart.wrap hfirst (hrender _ _ hbody)
  rw [hnext] at honce
  have htwice := honce.wrap hsecond (hrender _ _ hbody')
  rw [hagain] at htwice
  obtain ⟨⟨taken, rendered, hloop, hlen, hnodup⟩, -, hcycle, -⟩ :=
    wrap_ends ownLayout_holds
  have hwrap := (hcycle ["a".toList, "./a".toList, "./a".toList]).2
    ⟨_, _, _, rfl, htwice, by decide, by decide⟩
  exact ⟨taken, rendered, (hloop _ _ _).2 ⟨rfl, rfl, hwrap.symm⟩, hlen, hnodup⟩

end LayoutResolver
end StaticSite
