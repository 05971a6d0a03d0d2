import Mathlib
import StaticSite.Preview.Resolve
import StaticSite.Proofs.PathRests
import StaticSite.Proofs.PercentCoding

/-! What a request leads to. Whatever a URL is, its answer is found beneath the root of the preview;
and a file below the root is found by the URL of its names, unless one of them has a question
mark. -/
namespace StaticSite

namespace Path

variable {p root rel : Path} {n : Text} {c : Component}

theorem Component.ofName_eq_up_iff : Component.ofName n = .up ↔ n = ['.', '.'] := by
  rw [ofName]
  split <;> simp_all

theorem Component.ofName_ne_root (n : Text) : Component.ofName n ≠ .root := by
  rw [ofName]
  split <;> simp

theorem mem_lead (h : c ∈ p.lead) : c = .root ∧ p.isAbsolute ∨ c = .here := by
  rw [lead] at h
  split at h
  next habs => exact .inl ⟨by simpa using h, habs⟩
  next =>
    split at h
    · exact .inr (by simpa using h)
    · cases h

theorem up_mem_components_iff : Component.up ∈ p.components ↔ ['.', '.'] ∈ Text.pieces p.text := by
  have hlead : Component.up ∉ p.lead := fun h => by simpa using mem_lead h
  rw [components_eq, List.mem_append, or_iff_right hlead, List.mem_map]
  constructor
  · rintro ⟨t, ht, hup⟩
    obtain rfl := Component.ofName_eq_up_iff.1 hup
    exact List.mem_of_mem_filter (List.mem_of_mem_filter ht)
  · intro hpiece
    exact ⟨['.', '.'], by simp [named, hpiece], Component.ofName_eq_up_iff.2 rfl⟩

theorem root_notMem_components (h : p.isAbsolute = false) : Component.root ∉ p.components := by
  rw [components_eq]
  intro hmem
  cases List.mem_append.1 hmem with
  | inl hroot => simpa [h] using mem_lead hroot
  | inr hroot =>
    obtain ⟨t, -, ht⟩ := List.mem_map.1 hroot
    exact Component.ofName_ne_root t ht

/-- That a path is a root with a relative path behind it, which has no step upwards: its components
are those of the root and then others, which neither lead upwards nor start anew. -/
structure Beneath (root rel p : Path) : Prop where
  joined : p = root.join rel
  relative : rel.isAbsolute = false
  noUp : Component.up ∉ rel.components
  below : ∃ rest, p.components = root.components ++ rest ∧ ∀ c ∈ rest, c ≠ .up ∧ c ≠ .root

theorem beneath_join (root : Path) (hrel : rel.isAbsolute = false)
    (hup : Component.up ∉ rel.components) :
    Beneath root rel (root.join rel) := by
  have hadded : ∃ rest, (root.join rel).components = root.components ++ rest ∧
      ∀ c ∈ rest, c ∈ rel.components := by
    by_cases hroot : root.text = []
    · obtain rfl : root = ⟨[]⟩ := ext_text hroot
      refine ⟨rel.components, ?_, fun _ hc => hc⟩
      rw [join_of_relative hrel]
      rfl
    · refine ⟨_, components_join_of_relative hroot hrel, fun c hc => ?_⟩
      rw [components_eq]
      exact List.mem_append_right _ hc
  obtain ⟨rest, hcomponents, hrest⟩ := hadded
  refine ⟨rfl, hrel, hup, rest, hcomponents, fun c hc => ⟨?_, ?_⟩⟩
  · rintro rfl
    exact hup (hrest _ hc)
  · rintro rfl
    exact root_notMem_components hrel (hrest _ hc)

theorem Beneath.joinText (h : Beneath root rel p) (hn : ValidName n) :
    Beneath root (rel.joinText n) (p.joinText n) := by
  have hname : Component.ofName n ≠ .up := mt Component.ofName_eq_up_iff.1 hn.ne_dots
  have hup : Component.up ∉ (rel.joinText n).components := by
    rw [components_joinText hn.plain]
    simpa [hname.symm] using h.noUp
  have hrel : (rel.joinText n).isAbsolute = false :=
    isAbsolute_join_of_relative h.relative (isAbsolute_of_noSlash hn.noSlash)
  rw [h.joined, Path.joinText, Path.joinText, join_assoc]
  exact beneath_join root hrel hup

end Path

namespace Preview

variable {fs : FileSystem} {root p : Path} {request t : Text} {names : List Text}

/-! ### The path of a request -/

theorem trimSlashes_eq (t : Text) : trimSlashes t = (t.dropWhile isSlash).rdropWhile isSlash := rfl

theorem isAbsolute_trimSlashes (t : Text) : (Path.mk (trimSlashes t)).isAbsolute = false := by
  obtain ⟨cut, hcut⟩ : trimSlashes t <+: t.dropWhile isSlash := by
    rw [trimSlashes_eq]
    exact List.rdropWhile_prefix _ _
  cases htrimmed : trimSlashes t with
  | nil => rfl
  | cons c rest =>
    rw [htrimmed, List.cons_append] at hcut
    have hc := List.head?_dropWhile_not isSlash t
    rw [← hcut, List.head?_cons] at hc
    simpa [Path.isAbsolute, isSlash] using hc

theorem trimSlashes_cons (hhead : t.head? ≠ some '/') (hlast : t.getLast? ≠ some '/') :
    trimSlashes ('/' :: t) = t := by
  have hstart : ('/' :: t).dropWhile isSlash = t := by
    cases t with
    | nil => rfl
    | cons c t =>
      have hc : isSlash c = false := by simpa [isSlash] using hhead
      rw [List.dropWhile_cons_of_pos (by rfl), List.dropWhile_cons_of_neg (by simp [hc])]
  rw [trimSlashes_eq, hstart, List.rdropWhile_eq_self_iff]
  intro hne hslash
  apply hlast
  rw [List.getLast?_eq_getLast_of_ne_nil hne]
  simpa [isSlash] using hslash

theorem isAbsolute_requestPath (url : Text) : (Path.mk (requestPath url)).isAbsolute = false :=
  isAbsolute_trimSlashes _

theorem query_notMem_requestPath (url : Text) : '?' ∉ requestPath url := by
  intro hmem
  have hsub : ∀ u : Text, ∀ c ∈ trimSlashes u, c ∈ u := by
    intro u c hc
    rw [trimSlashes_eq] at hc
    exact (List.dropWhile_suffix _).subset ((List.rdropWhile_prefix _ _).subset hc)
  have hkept := List.mem_takeWhile_imp (hsub _ _ hmem)
  simp at hkept

theorem climbs_iff : climbs request = true ↔ Component.up ∈ (Path.mk request).components := by
  rw [Path.up_mem_components_iff, climbs, List.contains_iff_mem]
  rfl

/-! ### What it leads to -/

/-- What the path of a request comes to: the first that is there of the file, the index of the
directory and the list of its entries, unless the path climbs. -/
inductive Answers (fs : FileSystem) (root : Path) (request : Text) : Resolved → Prop
  | climbs (h : climbs request = true) : Answers fs root request .notFound
  | file (hstays : climbs request = false) (h : fs.isFile (root.joinText request) = true) :
      Answers fs root request (.file (root.joinText request))
  | index (hstays : climbs request = false) (hfile : fs.isFile (root.joinText request) = false)
      (hdir : fs.isDirectory (root.joinText request) = true)
      (h : fs.isFile ((root.joinText request).joinText indexName) = true) :
      Answers fs root request (.file ((root.joinText request).joinText indexName))
  | listing {entries : List (Text × Node)} (hstays : climbs request = false)
      (hfile : fs.isFile (root.joinText request) = false)
        (hdir : fs.isDirectory (root.joinText request) = true)
      (hindex : fs.isFile ((root.joinText request).joinText indexName) = false)
      (h : fs.list (root.joinText request) = .ok entries) :
      Answers fs root request (.listing (Listing.page entries request))
  | unlisted {e : IoError} (hstays : climbs request = false)
      (hfile : fs.isFile (root.joinText request) = false)
      (hdir : fs.isDirectory (root.joinText request) = true)
      (hindex : fs.isFile ((root.joinText request).joinText indexName) = false)
      (h : fs.list (root.joinText request) = .error e) : Answers fs root request .notFound
  | missing (hstays : climbs request = false) (hfile : fs.isFile (root.joinText request) = false)
      (hdir : fs.isDirectory (root.joinText request) = false) : Answers fs root request .notFound

theorem resolve_eq_iff {url : Text} {answer : Resolved} :
    resolve fs root url = answer ↔ Answers fs root (requestPath url) answer := by
  constructor
  · rintro rfl
    rw [resolve]
    cases hstays : climbs (requestPath url) with
    | true => exact .climbs hstays
    | false =>
      cases hfile : fs.isFile (root.joinText (requestPath url)) with
      | true => simpa [hfile] using Answers.file hstays hfile
      | false =>
        cases hdir : fs.isDirectory (root.joinText (requestPath url)) with
        | false => simpa [hfile, hdir] using Answers.missing hstays hfile hdir
        | true =>
          cases hindex : fs.isFile ((root.joinText (requestPath url)).joinText indexName) with
          | true => simpa [hfile, hdir, hindex] using Answers.index hstays hfile hdir hindex
          | false =>
            cases hlist : fs.list (root.joinText (requestPath url)) with
            | error e =>
              simpa [hfile, hdir, hindex, hlist] using Answers.unlisted hstays hfile hdir hindex
                hlist
            | ok entries =>
              simpa [hfile, hdir, hindex, hlist] using Answers.listing hstays hfile hdir hindex
                hlist
  · intro h
    cases h with
    | climbs h => simp [resolve, h]
    | file hstays h => simp [resolve, hstays, h]
    | index hstays hfile hdir h => simp [resolve, hstays, hfile, hdir, h]
    | listing hstays hfile hdir hindex h => simp [resolve, hstays, hfile, hdir, hindex, h]
    | unlisted hstays hfile hdir hindex h => simp [resolve, hstays, hfile, hdir, hindex, h]
    | missing hstays hfile hdir => simp [resolve, hstays, hfile, hdir]

theorem beneath_request (root : Path) {url : Text} (hstays : climbs (requestPath url) = false) :
    Path.Beneath root ⟨requestPath url⟩ (root.joinText (requestPath url)) := by
  apply Path.beneath_join root (isAbsolute_requestPath url)
  rw [← climbs_iff, hstays]
  simp

theorem indexName_valid : ValidName indexName := by decide

/-- Whatever is asked for, an answer is found beneath the root: a file is the root with a relative
path behind it that does not lead upwards, and so is the directory whose entries are listed. No URL
asks for an absolute path, and one that asks for a step upwards is answered by nothing; any other
one is answered by the file that it asks for, if there is one. -/
theorem resolve_confined (fs : FileSystem) (root : Path) (url : Text) :
    (∀ p, resolve fs root url = .file p → fs.isFile p = true ∧ ∃ rel, Path.Beneath root rel p) ∧
      (∀ html, resolve fs root url = .listing html → ∃ rel dir entries, Path.Beneath root rel dir ∧
        fs.isDirectory dir = true ∧ fs.list dir = .ok entries ∧
        html = Listing.page entries rel.text) ∧
      (Path.mk (requestPath url)).isAbsolute = false ∧
      (Component.up ∈ (Path.mk (requestPath url)).components → resolve fs root url = .notFound) ∧
      (Component.up ∉ (Path.mk (requestPath url)).components →
        fs.isFile (root.joinText (requestPath url)) = true →
        resolve fs root url = .file (root.joinText (requestPath url))) := by
  refine ⟨fun p hp => ?_, fun html hhtml => ?_, isAbsolute_requestPath url, fun hup => ?_,
    fun hup hfile => ?_⟩
  · cases resolve_eq_iff.1 hp with
    | file hstays hfile => exact ⟨hfile, _, beneath_request root hstays⟩
    | index hstays _ _ hindex =>
      exact ⟨hindex, _, (beneath_request root hstays).joinText indexName_valid⟩
  · cases resolve_eq_iff.1 hhtml with
    | listing hstays _ hdir _ hlist =>
      exact ⟨_, _, _, beneath_request root hstays, hdir, hlist, rfl⟩
  · exact resolve_eq_iff.2 (.climbs (climbs_iff.2 hup))
  · rw [← climbs_iff, Bool.not_eq_true] at hup
    exact resolve_eq_iff.2 (.file hup hfile)

def servedSite : FileSystem where
  nodes := [(["s".toList], .directory 0), (["s".toList, "a b".toList], .link "d/x.txt".toList),
    (["s".toList, "d".toList], .directory 0), (["s".toList, "d".toList, "x.txt".toList],
      .file [0x78] 1)]
  here := []
  clock := 1

def servedRoot : Path := .ofString "/s"

theorem servedSite_file : resolve servedSite servedRoot "//a%20b/?t=1".toList =
      .file (.ofString "/s/a b") := by
  have hpath : requestPath "//a%20b/?t=1".toList = "a b".toList := by cbv
  rw [resolve_eq_iff, hpath]
  exact .file (by decide) (by cbv)

theorem servedSite_listing :
    resolve servedSite servedRoot "d%2F".toList =
      .listing (Listing.page [("x.txt".toList, .file [0x78] 1)] "d".toList) := by
  have hpath : requestPath "d%2F".toList = "d".toList := by cbv
  rw [resolve_eq_iff, hpath]
  exact .listing (by decide) (by cbv) (by cbv) (by cbv) (by cbv)

/-- The step upwards in the last URL is encoded, and would lead to the link again. -/
theorem servedSite_confined :
    (servedSite.isFile (.ofString "/s/a b") = true ∧
      ∃ rel, Path.Beneath servedRoot rel (.ofString "/s/a b")) ∧
      (∃ rel dir entries, Path.Beneath servedRoot rel dir ∧ servedSite.isDirectory dir = true ∧
        servedSite.list dir = .ok entries ∧
        Listing.page [("x.txt".toList, .file [0x78] 1)] "d".toList =
          Listing.page entries rel.text) ∧
      Component.up ∈ (Path.mk (requestPath "/d/%2e%2E/a%20b".toList)).components ∧
      resolve servedSite servedRoot "/d/%2e%2E/a%20b".toList = .notFound := by
  obtain ⟨hfiles, -⟩ := resolve_confined servedSite servedRoot "//a%20b/?t=1".toList
  obtain ⟨-, hlistings, -⟩ := resolve_confined servedSite servedRoot "d%2F".toList
  obtain ⟨-, -, -, hclimbs, -⟩ := resolve_confined servedSite servedRoot "/d/%2e%2E/a%20b".toList
  have hpath : requestPath "/d/%2e%2E/a%20b".toList = "d/../a b".toList := by cbv
  have hup : Component.up ∈ (Path.mk (requestPath "/d/%2e%2E/a%20b".toList)).components := by
    rw [hpath]
    decide
  exact ⟨hfiles _ servedSite_file, hlistings _ servedSite_listing, hup, hclimbs hup⟩

/-! ### The URL of a file -/

theorem flatMap_slash (hne : names ≠ []) :
    (names.flatMap fun n => '/' :: n) = '/' :: Text.join ['/'] names := by
  induction names with
  | nil => exact absurd rfl hne
  | cons n names ih =>
    rw [List.flatMap_cons]
    by_cases hnil : names = []
    · simp [hnil, Text.join]
    · rw [ih hnil, Text.join_cons _ _ hnil]
      simp

theorem requestPath_urlOf (hne : names ≠ []) (hplain : ∀ n ∈ names, Path.Plain n)
    (hquery : ∀ n ∈ names, '?' ∉ n) :
    requestPath (Percent.urlOf names) = (Path.ofNames names).text := by
  have hkept : ('/' :: Text.join ['/'] names).takeWhile (· != '?') = '/' ::
      Text.join ['/'] names := by
    apply Text.takeWhile_eq_self
    rw [List.mem_cons, Text.mem_join_iff (by decide)]
    rintro (hslash | ⟨n, hn, hmem⟩)
    · exact absurd hslash (by decide)
    · exact hquery n hn hmem
  have hhead : (Text.join ['/'] names).head? ≠ some '/' := by
    simpa [Path.ofNames, Path.isAbsolute] using Path.ofNames_noAbsolute hplain
  have hlast : (Text.join ['/'] names).getLast? ≠ some '/' := by
    rw [← List.dropLast_append_getLast hne]
    have hn : Path.Plain (names.getLast hne) := hplain _ (List.getLast_mem hne)
    by_cases hnil : names.dropLast = []
    · rw [hnil]
      exact Path.getLast?_of_plain hn []
    · rw [Text.join_append _ hnil (by simp)]
      exact Path.getLast?_of_plain hn _
  rw [requestPath, Percent.decode_urlOf, flatMap_slash hne]
  simp only [hkept]
  exact trimSlashes_cons hhead hlast

theorem climbs_ofNames (hne : names ≠ []) (hnames : ValidNames names) :
    climbs (Path.ofNames names).text = false := by
  rw [← Bool.not_eq_true, climbs_iff, Path.up_mem_components_iff]
  intro hdots
  rw [Path.ofNames, Text.pieces_join hne fun n hn => (hnames n hn).noSlash] at hdots
  exact (hnames _ hdots).ne_dots rfl

theorem query_notMem_of_file {url behind : Text}
    (h : resolve fs root url = .file ⟨root.front ++ behind⟩) :
    '?' ∉ behind := by
  have hcancel {rel : Path} (hrel : rel.isAbsolute = false)
      (heq : Path.mk (root.front ++ behind) = root.join rel) :
      behind = rel.text := by
    rw [Path.join_of_relative hrel] at heq
    exact List.append_cancel_left (congrArg Path.text heq)
  have hrequest := isAbsolute_requestPath url
  have hnone := query_notMem_requestPath url
  generalize Path.mk (root.front ++ behind) = path at h hcancel
  cases resolve_eq_iff.1 h with
  | file =>
    rw [hcancel hrequest rfl]
    exact hnone
  | index =>
    have hindex : (Path.mk indexName).isAbsolute = false := by decide
    rw [hcancel (Path.isAbsolute_join_of_relative hrequest hindex)
      (Path.join_assoc root ⟨requestPath url⟩ ⟨indexName⟩),
      Path.join_of_relative hindex]
    intro hmem
    cases List.mem_append.1 hmem with
    | inl hfront =>
      cases Path.mem_front hfront with
      | inl htext => exact hnone htext
      | inr hslash => cases hslash
    | inr hname => exact absurd hname (by decide)

/-- A file below the root is found by the URL of its names exactly if none of them has a question
mark. -/
theorem resolve_urlOf_iff (fs : FileSystem) (root : Path) (names : List Text) (hne : names ≠ [])
    (hnames : ValidNames names) (hfile : fs.isFile (root.descend names) = true) :
    resolve fs root (Percent.urlOf names) = .file (root.descend names) ↔ ∀ n ∈ names, '?' ∉ n := by
  have hplain : ∀ n ∈ names, Path.Plain n := fun n hn => (hnames n hn).plain
  have hjoin : root.join (.ofNames names) = root.descend names := Path.join_ofNames root hne hplain
  constructor
  · intro hresolved n hn hmem
    rw [← hjoin, Path.join_of_relative (Path.ofNames_noAbsolute hplain)] at hresolved
    apply query_notMem_of_file hresolved
    exact (Text.mem_join_iff (by decide)).2 ⟨n, hn, hmem⟩
  · intro hquery
    have hrequest : requestPath (Percent.urlOf names) = (Path.ofNames names).text :=
      requestPath_urlOf hne hplain hquery
    have hpath : root.joinText (requestPath (Percent.urlOf names)) = root.descend names := by
      rw [hrequest]
      exact hjoin
    rw [← hpath] at hfile ⊢
    refine resolve_eq_iff.2 (.file ?_ hfile)
    rw [hrequest]
    exact climbs_ofNames hne hnames

/-- Names of characters that mean something in a URL. -/
def oddNames : List Text := ["a b".toList, "%41&\\é~.txt".toList]

def askName : Text := "a?b.txt".toList

def oddSite : FileSystem where
  nodes := [(["s".toList], .directory 0), (["s".toList, "a b".toList], .directory 0),
    ("s".toList :: oddNames, .file [0x78] 1), (["s".toList, askName], .file [0x79] 1)]
  here := []
  clock := 1

theorem oddSite_found :
    Percent.urlOf oddNames = "/a%20b/%2541%26%5C%C3%A9~.txt".toList ∧
      resolve oddSite servedRoot (Percent.urlOf oddNames) = .file (servedRoot.descend oddNames) :=
  ⟨by decide, (resolve_urlOf_iff oddSite servedRoot oddNames (by decide) (by decide) (by cbv)).2
    (by decide)⟩

/-- The file is there, but of its name only what stands before the question mark is asked for. -/
theorem oddSite_not_found :
    ValidName askName ∧ oddSite.isFile (servedRoot.joinText askName) = true ∧
      Percent.urlOf [askName] = "/a%3Fb.txt".toList ∧
      resolve oddSite servedRoot (Percent.urlOf [askName]) = .notFound := by
  have hpath : requestPath (Percent.urlOf [askName]) = ['a'] := by cbv
  refine ⟨by decide, by cbv, by decide, ?_⟩
  rw [resolve_eq_iff, hpath]
  exact .missing (by decide) (by cbv) (by cbv)

end Preview
end StaticSite
