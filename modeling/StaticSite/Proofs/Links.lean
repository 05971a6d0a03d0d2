import Mathlib
import StaticSite.Proofs.Answers
import StaticSite.Proofs.ByteOrder
import StaticSite.Proofs.PathJoins

/-! The links of a listing, as a client reads them: the attribute of an item up to the next quote,
its entities decoded. A listing has one item for each name in a directory that is not hidden. Its
link leads to what the name stands for exactly if the path in it is read as it is written. -/
namespace StaticSite

open FileSystem

namespace Preview

variable {fs : FileSystem} {root : Path} {request name : Text}

/-! ### What a link leads to -/

/-- That a URL leads to what a name in a directory stands for: to the file, or to the index or else
the listing of the directory. -/
structure Follows (fs : FileSystem) (root : Path) (request name url : Text) : Prop where
  file : fs.isFile ((root.joinText request).joinText name) = true →
    resolve fs root url = .file ((root.joinText request).joinText name)
  index : fs.isDirectory ((root.joinText request).joinText name) = true →
    fs.isFile (((root.joinText request).joinText name).joinText indexName) = true →
      resolve fs root url = .file (((root.joinText request).joinText name).joinText indexName)
  listing : fs.isDirectory ((root.joinText request).joinText name) = true →
    fs.isFile (((root.joinText request).joinText name).joinText indexName) = false →
      ∃ entries, fs.list ((root.joinText request).joinText name) = .ok entries ∧
        resolve fs root url = .listing (Listing.page entries ((Path.mk request).joinText name).text)

/-- That a link is read as it is meant. The request in it is not escaped, and nothing in it is
percent encoded. -/
structure PlainLink (request name : Text) : Prop where
  quote : '"' ∉ request
  entity : Listing.hasEntity request = false
  code : Percent.hasCode request = false
  nameCode : Percent.hasCode name = false
  nameQuery : '?' ∉ name

theorem Trimmed.text_joinText (h : Trimmed request) (hname : ValidName name) :
    ((Path.mk request).joinText name).text = if request = [] then name else request ++ '/' ::
      name := by
  rw [Path.joinText, Path.join_of_relative (Path.isAbsolute_of_noSlash hname.noSlash), h.front]
  split <;> simp

theorem Trimmed.href_eq (h : Trimmed request) (name : Text) :
    Listing.href request name = '/' :: ((Path.mk request).front ++ Listing.escapeHtml name) := by
  rw [Listing.href, Listing.start, h.front]
  split <;> simp

theorem exists_unescape_href (hrequest : Trimmed request) (hname : ValidName name) :
    ∃ path : Text, Listing.unescape (Listing.href request name) = '/' :: path ∧
      (Listing.hasEntity request = false → path = ((Path.mk request).joinText name).text) ∧
      (Listing.hasEntity request = true →
        path.byteLength < ((Path.mk request).joinText name).text.byteLength) := by
  refine ⟨Listing.unescape ((Path.mk request).front ++ Listing.escapeHtml name), ?_, ?_⟩
  · rw [hrequest.href_eq]
    exact Listing.unescape_cons (Listing.not_prefix_of_ne (by decide) _)
  rw [hrequest.front, hrequest.text_joinText hname]
  by_cases hnil : request = []
  · subst hnil
    exact ⟨fun _ => Listing.unescape_escapeHtml name, fun h => absurd h (by decide)⟩
  · rw [if_neg hnil, if_neg hnil, List.append_assoc, List.singleton_append,
      Listing.unescape_append_slash, Listing.unescape_escapeHtml]
    refine ⟨fun h => by rw [Listing.unescape_eq_self h], fun h => ?_⟩
    have hlt := Listing.byteLength_unescape_lt h
    rw [Text.byteLength_append, Text.byteLength_append]
    omega

theorem Trimmed.hasCode_joinText (h : Trimmed request) (hname : ValidName name) :
    Percent.hasCode ((Path.mk request).joinText name).text =
      (Percent.hasCode request || Percent.hasCode name) := by
  rw [h.text_joinText hname]
  split
  next hnil =>
    subst hnil
    rfl
  next => exact Percent.hasCode_append_slash request name

theorem Trimmed.mem_joinText (h : Trimmed request) (hname : ValidName name) {c : Char}
    (hc : c ≠ '/') :
    c ∈ ((Path.mk request).joinText name).text ↔ c ∈ request ∨ c ∈ name := by
  rw [h.text_joinText hname]
  split
  next hnil => simp [hnil]
  next => simp [hc]

theorem exists_takeWhile_href (h : '"' ∈ request) (name : Text) :
    ∃ before : Text, (Listing.href request name).takeWhile (· != '"') = '/' :: before ∧
      before.byteLength < request.byteLength := by
  obtain ⟨before, rest, rfl, hbefore⟩ := List.eq_append_cons_of_mem h
  refine ⟨before, ?_, ?_⟩
  · have hstart : '"' ∉ '/' :: before := by simp [hbefore]
    have hhref : Listing.href (before ++ '"' :: rest) name =
        ('/' :: before) ++ '"' :: (rest ++ '/' :: Listing.escapeHtml name) := by
      simp [Listing.href, Listing.start]
    rw [hhref, Text.takeWhile_append_cons hstart]
  · have hpos := Text.byteLength_pos (t := '"' :: rest) (by simp)
    rw [Text.byteLength_append]
    omega

theorem byteLength_le_joinText (t : Text) (hname : ValidName name) :
    t.byteLength ≤ ((Path.mk t).joinText name).text.byteLength :=
  Text.byteLength_le_of_sublist (Path.prefix_join ⟨t⟩
    (Path.isAbsolute_of_noSlash hname.noSlash)).sublist

theorem requestPath_link (hrequest : Trimmed request) (hquery : '?' ∉ request)
    (hname : ValidName name) :
    (PlainLink request name → requestPath
      (Listing.unescape ((Listing.href request name).takeWhile (· != '"'))) =
      ((Path.mk request).joinText name).text) ∧
    (¬PlainLink request name →
      (requestPath (Listing.unescape
        ((Listing.href request name).takeWhile (· != '"')))).byteLength <
        ((Path.mk request).joinText name).text.byteLength) := by
  by_cases hquote : '"' ∈ request
  · refine ⟨fun h => absurd hquote h.quote, fun _ => ?_⟩
    obtain ⟨before, hread, hlt⟩ := exists_takeWhile_href hquote name
    have hwhole := byteLength_le_joinText request hname
    have hunescape := Listing.byteLength_unescape_le before
    have hle := byteLength_requestPath_le (Listing.unescape before)
    rw [hread, Listing.unescape_cons (Listing.not_prefix_of_ne (by decide) _), requestPath_slash]
    omega
  · obtain ⟨path, hread, hplain, hentity⟩ := exists_unescape_href hrequest hname
    rw [Text.takeWhile_eq_self (mt (Listing.mem_href_iff (by simp) name).1 hquote), hread,
      requestPath_slash]
    cases hhas : Listing.hasEntity request with
    | true =>
      refine ⟨fun h => absurd hhas (by simp [h.entity]), fun _ => ?_⟩
      exact Nat.lt_of_le_of_lt (byteLength_requestPath_le path) (hentity hhas)
    | false =>
      obtain rfl := hplain hhas
      have hcode := hrequest.hasCode_joinText hname
      have hmem := hrequest.mem_joinText hname (c := '?') (by decide)
      constructor
      · intro h
        refine (hrequest.joinText hname).requestPath_eq_self ?_ ?_
        · rw [hcode, h.code, h.nameCode]
          rfl
        · rw [hmem]
          exact not_or.2 ⟨hquery, h.nameQuery⟩
      · intro h
        refine byteLength_requestPath_lt ?_
        rw [hcode, hmem]
        by_contra hnone
        simp only [Bool.or_eq_true, not_or, Bool.not_eq_true] at hnone
        exact h ⟨hquote, hhas, hnone.1.1, hnone.1.2, hnone.2.2⟩

theorem climbs_joinText (hname : ValidName name) (hstays : climbs request = false) :
    climbs ((Path.mk request).joinText name).text = false := by
  rw [← Bool.not_eq_true, climbs_iff] at hstays ⊢
  have hup : Path.Component.ofName name ≠ .up := mt Path.Component.ofName_eq_up_iff.1 hname.ne_dots
  have hcomponents := Path.components_joinText hname.plain ⟨request⟩
  rw [hcomponents, List.mem_append, List.mem_singleton]
  exact not_or.2 ⟨hstays, hup.symm⟩

theorem exists_answer (hname : ValidName name) (hstays : climbs request = false)
    (hthere : fs.isFile ((root.joinText request).joinText name) = true ∨
      fs.isDirectory ((root.joinText request).joinText name) = true) :
    ∃ answer, answer ≠ .notFound ∧ Answers fs root ((Path.mk request).joinText name).text answer ∧
      ∀ url, Follows fs root request name url ↔ resolve fs root url = answer := by
  have hpath : root.joinText ((Path.mk request).joinText name).text =
      (root.joinText request).joinText name :=
    (Path.join_assoc root ⟨request⟩ ⟨name⟩).symm
  have hclimbs := climbs_joinText hname hstays
  cases hfile : fs.isFile ((root.joinText request).joinText name) with
  | true =>
    have hdir : fs.isDirectory ((root.joinText request).joinText name) ≠ true := fun hdir => by
      simp [not_isFile_of_isDirectory hdir] at hfile
    rw [← hpath] at hfile
    refine ⟨_, by simp, .file hclimbs hfile, fun url => ?_⟩
    rw [hpath] at hfile ⊢
    exact ⟨fun h => h.file hfile, fun h => ⟨fun _ => h, fun hd => absurd hd hdir,
      fun hd => absurd hd hdir⟩⟩
  | false =>
    have hdir := hthere.resolve_left (by simp [hfile])
    have hnofile : ¬fs.isFile ((root.joinText request).joinText name) = true := by simp [hfile]
    cases hindex : fs.isFile (((root.joinText request).joinText name).joinText indexName) with
    | true =>
      refine ⟨_, by simp, .index hclimbs (by rwa [hpath]) (by rwa [hpath]) (by rwa [hpath]),
        fun url => ?_⟩
      rw [hpath]
      refine ⟨fun h => h.index hdir hindex, fun h => ?_⟩
      exact ⟨fun hf => absurd hf hnofile, fun _ _ => h, fun _ hno => absurd hindex (by simp [hno])⟩
    | false =>
      obtain ⟨q, t, hstat⟩ := isDirectory_iff.1 hdir
      have hlist : fs.list ((root.joinText request).joinText name) = .ok (fs.entries q) := by
        rw [list, hstat]
      refine ⟨_, by simp, .listing hclimbs (by rwa [hpath]) (by rwa [hpath]) (by rwa [hpath])
        (by rwa [hpath]),
        fun url => ⟨fun h => ?_, fun h => ?_⟩⟩
      · obtain ⟨entries, hentries, hresolve⟩ := h.listing hdir hindex
        rw [hlist] at hentries
        rw [hresolve, Except.ok.inj hentries]
      · exact ⟨fun hf => absurd hf hnofile, fun _ hyes => absurd hyes (by simp [hindex]),
          fun _ _ => ⟨_, hlist, h⟩⟩

theorem eq_of_joinText {p q : Path} {n m : Text} (hn : ValidName n) (hm : ValidName m)
    (h : (p.joinText n).text = (q.joinText m).text) : n = m := by
  have hcomponents := congrArg Path.components (Path.ext_text h)
  rw [Path.components_joinText hn.plain, Path.components_joinText hm.plain] at hcomponents
  have hlast := (List.append_inj' hcomponents rfl).2
  have htext := congrArg Component.text? (List.singleton_inj.1 hlast)
  rw [Path.text?_ofName, Path.text?_ofName] at htext
  exact Option.some.inj htext

theorem follows_iff (hrequest : Trimmed request) (hquery : '?' ∉ request) (hname : ValidName name)
    (hstays : climbs request = false)
    (hnoindex : fs.isFile ((root.joinText request).joinText indexName) = false)
    (hthere : fs.isFile ((root.joinText request).joinText name) = true ∨
      fs.isDirectory ((root.joinText request).joinText name) = true) :
    Follows fs root request name (Listing.unescape
      ((Listing.href request name).takeWhile (· != '"'))) ↔
      PlainLink request name := by
  obtain ⟨answer, hfound, hanswer, hfollows⟩ := exists_answer hname hstays hthere
  obtain ⟨hplain, hshort⟩ := requestPath_link hrequest hquery hname
  rw [hfollows, resolve_eq_iff]
  constructor
  · intro hread
    by_contra hnot
    have hlt := hshort hnot
    rcases eq_or_index (trimmed_requestPath _) (hrequest.joinText hname) hread hanswer hfound with
      hsame | hbelow | ⟨habove, hfile⟩
    · rw [hsame] at hlt
      exact Nat.lt_irrefl _ hlt
    · have hle := byteLength_le_joinText ((Path.mk request).joinText name).text indexName_valid
      rw [hbelow] at hlt
      omega
    · -- The name is that of the index, but it leads to no file.
      obtain rfl := eq_of_joinText hname indexName_valid habove
      have hpath : root.joinText ((Path.mk request).joinText indexName).text =
          (root.joinText request).joinText indexName :=
        (Path.join_assoc root ⟨request⟩ ⟨indexName⟩).symm
      rw [hpath, hnoindex] at hfile
      cases hfile
  · intro h
    rwa [hplain h]

/-! ### A listing -/

theorem exists_list_eq {p : Path} {entries : List (Text × Node)} (h : fs.list p = .ok entries) :
    ∃ place t, fs.stat p = .ok (place, .directory t) ∧ entries = fs.entries place := by
  rw [list] at h
  split at h
  · cases h
  next place t hstat => exact ⟨place, t, hstat, (Except.ok.inj h).symm⟩
  · cases h

/-- A listing has one item for each entry whose name does not begin with a dot, in the order of the
bytes of the names, and the link of an item leads to what the name stands for exactly if it is
plain. -/
theorem listing_links (hwf : fs.WellFormed) (root : Path) (url : Text) {html : Text}
    (h : resolve fs root url = .listing html) :
    ∃ (place : Place) (t : Nat) (shown : List (Text × Node)),
      fs.stat (root.joinText (requestPath url)) = .ok (place, .directory t) ∧
      (∀ name node, (name, node) ∈ shown ↔ fs.at? (place ++ [name]) = some node ∧
        name.head? ≠ some '.') ∧
      (shown.Pairwise fun a b => Text.Utf8.encode a.1 < Text.Utf8.encode b.1) ∧
      (∃ before after, html = before ++ Text.join ['\n'] (Listing.upItems (requestPath url) ++
        shown.map fun e => Listing.entryItem (Listing.start (requestPath url)) e.1 e.2) ++ after) ∧
      ('"' ∉ requestPath url → Listing.attributes html = "utf-8".toList ::
        (Listing.upHrefs (requestPath url) ++
        shown.map fun e => Listing.href (requestPath url) e.1)) ∧
      ∀ e ∈ shown, ∃ target more,
        Listing.attributes (Listing.entryItem (Listing.start (requestPath url)) e.1 e.2) = target ::
          more ∧
        (fs.isFile ((root.joinText (requestPath url)).joinText e.1) = true ∨
            fs.isDirectory ((root.joinText (requestPath url)).joinText e.1) = true →
          (Follows fs root (requestPath url) e.1 (Listing.unescape target) ↔
            PlainLink (requestPath url) e.1)) := by
  have hanswer := resolve_eq_iff.1 h
  have hrequest := trimmed_requestPath url
  have hquery := query_notMem_requestPath url
  generalize requestPath url = request at hanswer hrequest hquery ⊢
  cases hanswer with
  | listing hstays hnofile hdir hnoindex hlist =>
  obtain ⟨place, t, hstat, rfl⟩ := exists_list_eq hlist
  have hmem (name : Text) (node : Node) :
      (name, node) ∈ (fs.entries place).filter (fun e => Listing.isShown e.1) ↔
      fs.at? (place ++ [name]) = some node ∧ name.head? ≠ some '.' := by
    have hentry : (name, node) ∈ fs.entries place ↔ fs.at? (place ++ [name]) = some node := by
      rw [mem_entries]
      exact ⟨hwf.at?_of_mem (by simp), mem_nodes_of_at? (by simp)⟩
    rw [List.mem_filter, hentry, Listing.isShown, bne_iff_ne]
  refine ⟨place, t, (fs.entries place).filter fun e => Listing.isShown e.1, hstat, hmem,
    (hwf.pairwise_entries place).filter _, ?_, Listing.attributes_page _, ?_⟩
  -- The page is its head, the items joined, and its end.
  · have hregroup (a v t j z : Text) :
        a ++ '"' :: (v ++ '"' :: (t ++ (j ++ z))) = a ++ '"' :: (v ++ '"' :: t) ++ j ++ z := by
      simp only [List.append_assoc, List.cons_append]
    rw [Listing.page_eq, hregroup]
    exact ⟨_, _, rfl⟩
  · rintro ⟨name, node⟩ hshown
    have hname : ValidName name := hwf.validName ((hmem name node).1 hshown).1
    obtain ⟨more, hattributes⟩ := Listing.exists_attributes_item (Listing.href request name)
      (Listing.escapeHtml name ++ if node.isDirectory then ['/'] else [])
    exact ⟨_, more, hattributes, follows_iff hrequest hquery hname hstays hnoindex⟩

def codedSite : FileSystem where
  nodes := [(["s".toList], .directory 0), (["s".toList, "d".toList], .directory 0),
    (["s".toList, "d".toList, ".hidden".toList], .file [0x78] 1),
    (["s".toList, "d".toList, "R&D \"2\".txt".toList], .file [0x79] 1),
    (["s".toList, "d".toList, "a%41.txt".toList], .file [0x7A] 1),
    (["s".toList, "x&amp;".toList], .directory 0),
    (["s".toList, "x&amp;".toList, "c.txt".toList], .file [0x7A] 1)]
  here := []
  clock := 1

def codedUrl : Text := "/d/?t=1".toList

def codedPage : Text :=
  Listing.page [(".hidden".toList, .file [0x78] 1), ("R&D \"2\".txt".toList, .file [0x79] 1),
    ("a%41.txt".toList, .file [0x7A] 1)] "d".toList

def entityPage : Text := Listing.page [("c.txt".toList, .file [0x7A] 1)] "x&amp;".toList

theorem requestPath_codedUrl : requestPath codedUrl = "d".toList := by cbv

theorem codedSite_listing : resolve codedSite servedRoot codedUrl = .listing codedPage := by
  rw [resolve_eq_iff, requestPath_codedUrl]
  exact .listing (by decide) (by cbv) (by cbv) (by cbv) (by cbv)

/-- The link to the first of the names is plain, and that to the second one is not. -/
theorem codedSite_links :
    codedSite.WellFormed ∧ resolve codedSite servedRoot codedUrl = .listing codedPage ∧
      Follows codedSite servedRoot "d".toList "R&D \"2\".txt".toList "/d/R&D \"2\".txt".toList ∧
      ¬Follows codedSite servedRoot "d".toList "a%41.txt".toList "/d/a%41.txt".toList := by
  have hwf : codedSite.WellFormed := by decide
  obtain ⟨place, t, shown, hstat, hmem, -, -, -, hlinks⟩ :=
    listing_links hwf servedRoot codedUrl codedSite_listing
  rw [requestPath_codedUrl] at hstat hlinks
  have hplace : codedSite.stat (servedRoot.joinText "d".toList) =
      .ok (["s".toList, "d".toList], .directory 0) := by cbv
  obtain rfl : ["s".toList, "d".toList] = place := by
    rw [hplace] at hstat
    exact congrArg Prod.fst (Except.ok.inj hstat)
  obtain ⟨target, more, htarget, hplain⟩ :=
    hlinks ("R&D \"2\".txt".toList, .file [0x79] 1) ((hmem _ _).2 (by decide))
  obtain ⟨target', more', htarget', hcoded⟩ :=
    hlinks ("a%41.txt".toList, .file [0x7A] 1) ((hmem _ _).2 (by decide))
  have hread : Listing.attributes
      (Listing.entryItem (Listing.start "d".toList) "R&D \"2\".txt".toList (.file [0x79] 1)) =
      ["/d/R&amp;D &quot;2&quot;.txt".toList] := by decide
  have hread' : Listing.attributes
      (Listing.entryItem (Listing.start "d".toList) "a%41.txt".toList (.file [0x7A] 1)) =
      ["/d/a%41.txt".toList] := by decide
  obtain ⟨rfl, -⟩ := List.cons.inj (hread.symm.trans htarget)
  obtain ⟨rfl, -⟩ := List.cons.inj (hread'.symm.trans htarget')
  have hfollows := (hplain (.inl (by cbv))).2 ⟨by decide, by decide, by decide, by decide,
    by decide⟩
  have hmisread : ¬PlainLink "d".toList "a%41.txt".toList := fun h => absurd h.nameCode (by decide)
  exact ⟨hwf, codedSite_listing, hfollows, fun h => hmisread ((hcoded (.inl (by cbv))).1 h)⟩

/-- The files are there, but the link to the one asks for another name, and that to the other one
for another directory. -/
theorem codedSite_misled :
    (resolve codedSite servedRoot codedUrl = .listing codedPage ∧
      Listing.attributes codedPage =
        ["utf-8".toList, "/".toList, "/d/R&amp;D &quot;2&quot;.txt".toList, "/d/a%41.txt".toList] ∧
      codedSite.isFile ((servedRoot.joinText "d".toList).joinText "a%41.txt".toList) = true ∧
      resolve codedSite servedRoot (Listing.unescape "/d/a%41.txt".toList) = .notFound) ∧
    (resolve codedSite servedRoot "/x&amp;".toList = .listing entityPage ∧
      Listing.attributes entityPage = ["utf-8".toList, "/".toList, "/x&amp;/c.txt".toList] ∧
      codedSite.isFile ((servedRoot.joinText "x&amp;".toList).joinText "c.txt".toList) = true ∧
      resolve codedSite servedRoot (Listing.unescape "/x&amp;/c.txt".toList) = .notFound) := by
  have hpath : requestPath "/x&amp;".toList = "x&amp;".toList := by cbv
  have hcoded : requestPath (Listing.unescape "/d/a%41.txt".toList) = "d/aA.txt".toList := by cbv
  have hentity : requestPath (Listing.unescape "/x&amp;/c.txt".toList) = "x&/c.txt".toList := by cbv
  refine ⟨⟨codedSite_listing, by decide, by cbv, ?_⟩, ?_, by decide, by cbv, ?_⟩
  · rw [resolve_eq_iff, hcoded]
    exact .missing (by decide) (by cbv) (by cbv)
  · rw [resolve_eq_iff, hpath]
    exact .listing (by decide) (by cbv) (by cbv) (by cbv) (by cbv)
  · rw [resolve_eq_iff, hentity]
    exact .missing (by decide) (by cbv) (by cbv)

end Preview
end StaticSite
