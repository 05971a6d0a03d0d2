import Mathlib
import StaticSite.Proofs.Links

/-! The markup of a listing: the characters that tags and the values of attributes begin and end
with, and the tags themselves. A page has those of its template, and no more unless the request
brings some into a link. -/
namespace StaticSite

theorem Text.join_map_rel {α : Type} {R : Text → Text → Prop} {sep : Text} {f g : α → Text}
    {xs : List α} (nil : R [] []) (append : ∀ {s s' t t' : Text}, R s s' → R t t' →
      R (s ++ sep ++ t) (s' ++ sep ++ t'))
    (h : ∀ x ∈ xs, R (f x) (g x)) : R (join sep (xs.map f)) (join sep (xs.map g)) := by
  induction xs with
  | nil => exact nil
  | cons x xs ih =>
    obtain ⟨hx, hxs⟩ := List.forall_mem_cons.1 h
    by_cases hnil : xs = []
    · subst hnil
      exact hx
    · have hf : xs.map f ≠ [] := by simpa using hnil
      have hg : xs.map g ≠ [] := by simpa using hnil
      rw [List.map_cons, List.map_cons, join_cons _ _ hf, join_cons _ _ hg]
      exact append hx (ih hxs)

namespace Listing

variable {c : Char} {s s' t t' label target request : Text} {entries : List (Text × Node)}

/-! ### Tags, as they are read -/

/-- Where a reader of a page stands: between tags, in a tag, or in the value of an attribute. -/
inductive Reading
  | text
  | tag
  | value
  deriving DecidableEq, Repr

namespace Reading

def step : Reading → Char → Reading
  | .text, c => if c = '<' then .tag else .text
  | .tag, c => if c = '>' then .text else if c = '"' then .value else .tag
  | .value, c => if c = '"' then .tag else .value

/-- Whether a character belongs to a tag. The value of an attribute does not, but its quotes do. -/
def keeps : Reading → Char → Bool
  | .text, c => c == '<'
  | .tag, _ => true
  | .value, c => c == '"'

def after (r : Reading) (t : Text) : Reading := t.foldl step r

/-- The tags of a text that is read on, with their attributes but not with the values of these. -/
def tags : Reading → Text → Text
  | _, [] => []
  | r, c :: t => if r.keeps c then c :: tags (r.step c) t else tags (r.step c) t

variable {r q p : Reading}

theorem after_append (r : Reading) (s t : Text) : r.after (s ++ t) = (r.after s).after t :=
  List.foldl_append

theorem tags_append (r : Reading) (s t : Text) :
    r.tags (s ++ t) = r.tags s ++ (r.after s).tags t := by
  induction s generalizing r with
  | nil => rfl
  | cons c s ih =>
    rw [List.cons_append, tags, tags, ih]
    split <;> rfl

/-- That a reader reads the same tags in two texts, and stands at one place after either. -/
structure Same (r q : Reading) (s t : Text) : Prop where
  tags : r.tags s = r.tags t
  after : r.after s = q
  after' : r.after t = q

theorem Same.refl (h : r.after t = q) : Same r q t t := ⟨rfl, h, h⟩

theorem Same.append (hs : Same r q s s') (ht : Same q p t t') : Same r p (s ++ t) (s' ++ t') where
  tags := by rw [tags_append, tags_append, hs.tags, hs.after, hs.after', ht.tags]
  after := by rw [after_append, hs.after, ht.after]
  after' := by rw [after_append, hs.after', ht.after']

theorem same_nil (h : ∀ c ∈ t, r.keeps c = false ∧ r.step c = r) : Same r r t [] := by
  induction t with
  | nil => exact .refl rfl
  | cons c t ih =>
    obtain ⟨⟨hkeeps, hstep⟩, hrest⟩ := List.forall_mem_cons.1 h
    have hsame := ih hrest
    have htags : r.tags (c :: t) = r.tags t := by
      rw [tags, hkeeps, hstep]
      rfl
    have hafter : r.after (c :: t) = r.after t := congrArg (after · t) hstep
    exact ⟨htags.trans hsame.tags, hafter.trans hsame.after, rfl⟩

theorem same_text (h : '<' ∉ t) : Same .text .text t [] := by
  refine same_nil fun c hc => ?_
  have hne : c ≠ '<' := fun heq => h (heq ▸ hc)
  simp [keeps, step, hne]

theorem same_value (h : '"' ∉ t) : Same .value .value t [] := by
  refine same_nil fun c hc => ?_
  have hne : c ≠ '"' := fun heq => h (heq ▸ hc)
  simp [keeps, step, hne]

end Reading

/-! ### The template -/

def frame (title : Text) (items : List Text) : Text :=
  "<!DOCTYPE html>\n<html>\n<head><meta charset=\"utf-8\"><title>".toList ++ title ++
    "</title></head>\n<body>\n<h1>".toList ++ title ++ "</h1>\n<ul>\n".toList ++
    Text.join ['\n'] items ++
    "\n</ul>\n</body>\n</html>\n".toList

/-- What is the same in every page with so many items. -/
def template (count : Nat) : Text := frame [] (List.replicate count (item [] []))

theorem page_eq_frame (entries : List (Text × Node)) (request : Text) :
    page entries request = frame (escapeHtml ('/' :: request)) ((links entries request).map fun l =>
      item l.1 l.2) := by
  rw [← items_eq_links]
  rfl

theorem template_eq_frame (links : List (Text × Text)) :
    template links.length = frame [] (links.map fun _ => item [] []) := by
  rw [template, List.map_const']

theorem item_sublist (target label : Text) : (item [] []).Sublist (item target label) := by
  have hnil (t : Text) : List.Sublist [] t := List.nil_sublist t
  exact ((((List.Sublist.refl _).append (hnil target)).append (.refl _)).append (hnil label)).append
    (.refl _)

theorem template_sublist (entries : List (Text × Node)) (request : Text) :
    (template (links entries request).length).Sublist (page entries request) := by
  have hnil (t : Text) : List.Sublist [] t := List.nil_sublist t
  have hitems : (Text.join ['\n'] ((links entries request).map fun _ => item [] [])).Sublist
      (Text.join ['\n'] ((links entries request).map fun l => item l.1 l.2)) :=
    Text.join_map_rel (R := List.Sublist) (hnil _) (fun hs ht => (hs.append (.refl _)).append ht)
      fun l _ => item_sublist l.1 l.2
  rw [page_eq_frame, template_eq_frame]
  exact ((((((List.Sublist.refl _).append (hnil _)).append (.refl _)).append (hnil _)).append
    (.refl _)).append hitems).append (.refl _)

/-! ### The markup of a page -/

/-- Whether tags or the values of attributes begin or end with a character. -/
def isMarkup (c : Char) : Bool := c == '<' || c == '>' || c == '"'

def markup (t : Text) : Text := t.filter isMarkup

theorem isMarkup_iff : isMarkup c = true ↔ c = '<' ∨ c = '>' ∨ c = '"' := by
  simp [isMarkup, or_assoc]

theorem markup_append (s t : Text) : markup (s ++ t) = markup s ++ markup t := List.filter_append ..

theorem markup_eq_nil_iff : markup t = [] ↔ ∀ c ∈ t, ¬(c = '<' ∨ c = '>' ∨ c = '"') := by
  simp only [markup, List.filter_eq_nil_iff, isMarkup_iff]

theorem markup_escapeHtml (t : Text) : markup (escapeHtml t) = [] :=
  markup_eq_nil_iff.2 fun _ hc hmarkup => notMem_escapeHtml hmarkup t hc

theorem length_markup_item (hlabel : markup label = []) (target : Text) :
    (markup (item target label)).length = (markup (item [] [])).length +
      (markup target).length := by
  have hsum (a b d : Text) : (markup (a ++ target ++ b ++ label ++ d)).length =
      (markup (a ++ [] ++ b ++ [] ++ d)).length + (markup target).length := by
    simp only [markup_append, hlabel, List.length_append, List.append_nil]
    omega
  exact hsum _ _ _

theorem length_markup_join {links : List (Text × Text)} (hlabels : ∀ l ∈ links, markup l.2 = []) :
    (markup (Text.join ['\n'] (links.map fun l => item l.1 l.2))).length =
      (markup (Text.join ['\n'] (links.map fun _ => item [] []))).length +
        (links.map fun l => (markup l.1).length).sum := by
  induction links with
  | nil => rfl
  | cons l links ih =>
    obtain ⟨hlabel, hlinks⟩ := List.forall_mem_cons.1 hlabels
    have hitem := length_markup_item hlabel l.1
    have hrest := ih hlinks
    by_cases hnil : links = []
    · subst hnil
      exact hitem
    · rw [List.map_cons, List.map_cons, List.map_cons, Text.join_cons _ _ (by simpa using hnil),
        Text.join_cons _ _ (by simpa using hnil), List.sum_cons]
      simp only [markup_append, List.length_append]
      omega

theorem length_markup_frame {title : Text} (htitle : markup title = []) {items items' : List Text}
    {n : Nat} (hitems : (markup (Text.join ['\n'] items)).length =
      (markup (Text.join ['\n'] items')).length + n) :
    (markup (frame title items)).length = (markup (frame [] items')).length + n := by
  have hsum (a b d e : Text) :
      (markup (a ++ title ++ b ++ title ++ d ++ Text.join ['\n'] items ++ e)).length =
        (markup (a ++ [] ++ b ++ [] ++ d ++ Text.join ['\n'] items' ++ e)).length + n := by
    simp only [markup_append, htitle, List.length_append, List.append_nil]
    omega
  exact hsum _ _ _ _

theorem length_markup_page (entries : List (Text × Node)) (request : Text) :
    (markup (page entries request)).length =
      (markup (template (links entries request).length)).length +
        ((links entries request).map fun l => (markup l.1).length).sum := by
  have hlabels : ∀ l ∈ links entries request, markup l.2 = [] := fun l hl =>
    markup_eq_nil_iff.2 fun c hc hmarkup => notMem_label hmarkup hl hc
  rw [page_eq_frame, template_eq_frame]
  exact length_markup_frame (markup_escapeHtml _) (length_markup_join hlabels)

theorem markup_page_iff : markup (page entries request) =
      markup (template (links entries request).length) ↔
    ∀ l ∈ links entries request, markup l.1 = [] := by
  have hlength := length_markup_page entries request
  have hzero : ((links entries request).map fun l => (markup l.1).length).sum = 0 ↔
      ∀ l ∈ links entries request, markup l.1 = [] := by
    simp only [List.sum_eq_zero_iff, List.forall_mem_map, List.length_eq_zero_iff]
  rw [← hzero]
  constructor
  · intro heq
    rw [heq] at hlength
    omega
  · intro hsum
    rw [hsum, Nat.add_zero] at hlength
    exact (((template_sublist entries request).filter isMarkup).eq_of_length hlength.symm).symm

/-! ### The tags of a page -/

theorem same_item (htarget : '"' ∉ target) (hlabel : '<' ∉ label) :
    Reading.Same .text .text (item target label) (item [] []) :=
  ((((Reading.Same.refl (by decide)).append (Reading.same_value htarget)).append
    (.refl (by decide))).append
    (Reading.same_text hlabel)).append (.refl (by decide))

theorem same_page (h : ∀ l ∈ links entries request, '"' ∉ l.1) :
    Reading.Same .text .text (page entries request) (template (links entries request).length) := by
  have htitle := Reading.same_text (notMem_escapeHtml (c := '<') (by simp) ('/' :: request))
  have hitems : Reading.Same .text .text
      (Text.join ['\n'] ((links entries request).map fun l => item l.1 l.2))
      (Text.join ['\n'] ((links entries request).map fun _ => item [] [])) :=
    Text.join_map_rel (.refl rfl) (fun hs ht => (hs.append (.refl (by decide))).append ht)
      fun l hl => same_item (h l hl) (notMem_label (by simp) hl)
  rw [page_eq_frame, template_eq_frame]
  exact ((((((Reading.Same.refl (by decide)).append htitle).append (.refl (by decide))).append
    htitle).append (.refl (by decide))).append hitems).append (.refl (by decide))

theorem quote_notMem_attributes {html value : Text} (h : value ∈ attributes html) :
    '"' ∉ value := by
  have hevery : ∀ ts : List Text, ∀ v ∈ everySecond ts, v ∈ ts := by
    intro ts
    fun_induction everySecond ts with
    | case1 t v rest ih =>
      intro u hu
      rcases List.mem_cons.1 hu with rfl | hrest
      · simp
      · exact List.mem_cons_of_mem _ (List.mem_cons_of_mem _ (ih u hrest))
    | case2 ts => simp
  intro hquote
  simpa using Text.mem_splitBy (hevery _ _ h) '"' hquote

theorem tags_page_iff : Reading.tags .text (page entries request) =
      Reading.tags .text (template (links entries request).length) ∧
    attributes (page entries request) = "utf-8".toList :: (links entries request).map (·.1) ↔
      ∀ l ∈ links entries request, '"' ∉ l.1 := by
  constructor
  · rintro ⟨-, hattributes⟩ l hl
    have hvalue : l.1 ∈ attributes (page entries request) := by
      rw [hattributes]
      exact List.mem_cons_of_mem _ (List.mem_map_of_mem hl)
    exact quote_notMem_attributes hvalue
  · exact fun h => ⟨(same_page h).tags, attributes_page_of_links h⟩

/-! ### What a request brings into a page -/

def shown (entries : List (Text × Node)) : List (Text × Node) := entries.filter fun e => isShown e.1

/-- How many items a page has: one for each name that is shown, and one that leads upwards unless
the page is that of the root. -/
def itemCount (entries : List (Text × Node)) (request : Text) : Nat :=
  (upHrefs request).length + (shown entries).length

theorem length_links (entries : List (Text × Node)) (request : Text) :
    (links entries request).length = itemCount entries request := by
  have hmap := congrArg List.length (map_fst_links entries request)
  rw [List.length_map, List.length_append, List.length_map] at hmap
  exact hmap

theorem notMem_links_iff (hc : c = '<' ∨ c = '>' ∨ c = '"') :
    (∀ l ∈ links entries request, c ∉ l.1) ↔
    (c ∈ request → shown entries = [] ∧ c ∉ parentHref request) := by
  have htargets : (∀ l ∈ links entries request, c ∉ l.1) ↔
      (∀ target ∈ upHrefs request, c ∉ target) ∧ ∀ e ∈ shown entries, c ∉ request := by
    rw [← List.forall_mem_map (f := Prod.fst) (P := fun target => c ∉ target), map_fst_links,
      List.forall_mem_append, List.forall_mem_map]
    simp only [mem_href_iff hc, shown]
  rw [htargets]
  by_cases hrequest : c ∈ request
  · have hne : request ≠ [] := List.ne_nil_of_mem hrequest
    have hnone : (∀ e ∈ shown entries, c ∉ request) ↔ shown entries = [] := by
      simp [hrequest, List.eq_nil_iff_forall_not_mem]
    rw [hnone, upHrefs, if_neg hne, List.forall_mem_singleton, and_comm]
    exact ⟨fun h _ => h, fun h => h hrequest⟩
  · have hup : ∀ target ∈ upHrefs request, c ∉ target := by
      intro target htarget
      rw [upHrefs] at htarget
      split at htarget
      · cases htarget
      · rw [List.mem_singleton.1 htarget]
        exact notMem_parentHref (ne_slash hc) hrequest
    exact ⟨fun _ h => absurd h hrequest, fun _ => ⟨hup, fun _ _ => hrequest⟩⟩

theorem markup_links_iff : (∀ l ∈ links entries request, markup l.1 = []) ↔
    ∀ c ∈ request, isMarkup c = true → shown entries = [] ∧ c ∉ parentHref request := by
  simp only [markup_eq_nil_iff, isMarkup_iff]
  constructor
  · intro h c hrequest hc
    exact (notMem_links_iff hc).1 (fun l hl hmem => h l hl c hmem hc) hrequest
  · intro h l hl c hmem hc
    exact (notMem_links_iff hc).2 (fun hrequest => h c hrequest hc) l hl hmem

end Listing

namespace Preview

open Listing

variable {fs : FileSystem} {root : Path} {url html : Text}

/-- A listing has the markup of its template and no more, exactly if no link has a character of that
kind from the request. It has the tags of its template, with the links of its items for the values
of their attributes, exactly if no link has a quote from the request. The names in the directory do
not matter. -/
theorem listing_markup_iff (h : resolve fs root url = .listing html) :
    ∃ entries, fs.list (root.joinText (requestPath url)) = .ok entries ∧
      (template (itemCount entries (requestPath url))).Sublist html ∧
      (markup html = markup (template (itemCount entries (requestPath url))) ↔
        ∀ c ∈ requestPath url, isMarkup c = true → shown entries = [] ∧
          c ∉ parentHref (requestPath url)) ∧
      (Reading.tags .text html = Reading.tags .text
        (template (itemCount entries (requestPath url))) ∧
          attributes html = "utf-8".toList :: (upHrefs (requestPath url) ++
            (shown entries).map fun e => href (requestPath url) e.1) ↔
        ('"' ∈ requestPath url → shown entries = [] ∧ '"' ∉ parentHref (requestPath url))) := by
  have hanswer := resolve_eq_iff.1 h
  generalize requestPath url = request at hanswer ⊢
  cases hanswer with
  | @listing entries hstays hnofile hdir hnoindex hlist =>
  refine ⟨entries, hlist, ?_, ?_, ?_⟩
  · rw [← length_links]
    exact template_sublist entries request
  · rw [← length_links, markup_page_iff]
    exact markup_links_iff
  · rw [← length_links, shown, ← map_fst_links]
    exact tags_page_iff.trans (notMem_links_iff (by simp))

/-- The names in the directory have what looks like markup, and the request has not. -/
theorem codedSite_markup :
    resolve codedSite servedRoot codedUrl = .listing codedPage ∧
    markup codedPage = markup (template 3) ∧
      Reading.tags .text codedPage = Reading.tags .text (template 3) := by
  obtain ⟨entries, hlist, -, hmarkup, htags⟩ := listing_markup_iff codedSite_listing
  rw [requestPath_codedUrl] at hlist hmarkup htags
  have hentries : codedSite.list (servedRoot.joinText "d".toList) =
      .ok [(".hidden".toList, .file [0x78] 1),
      ("R&D \"2\".txt".toList, .file [0x79] 1), ("a%41.txt".toList, .file [0x7A] 1)] := by cbv
  obtain rfl := Except.ok.inj (hentries.symm.trans hlist)
  have hcount : itemCount [(".hidden".toList, .file [0x78] 1),
      ("R&D \"2\".txt".toList, .file [0x79] 1), ("a%41.txt".toList, .file [0x7A] 1)] "d".toList =
        3 := by cbv
  rw [hcount] at hmarkup htags
  have hplain : ∀ c ∈ "d".toList, isMarkup c ≠ true := by simp [isMarkup]
  have hquote : '"' ∉ "d".toList := by decide
  exact ⟨codedSite_listing, hmarkup.2 fun c hc hmarkup => absurd hmarkup (hplain c hc),
    (htags.2 fun h => absurd h hquote).1⟩

def forgedSite : FileSystem where
  nodes := [(["s".toList], .directory 0), (["s".toList, "x\" onclick=\"y".toList], .directory 0),
    (["s".toList, "x\" onclick=\"y".toList, "c.txt".toList], .file [0x78] 1)]
  here := []
  clock := 1

def forgedUrl : Text := "/x%22%20onclick=%22y".toList

def forgedPage : Text := page [("c.txt".toList, .file [0x78] 1)] "x\" onclick=\"y".toList

/-- The link to the file in the directory has an attribute from the request. -/
theorem listing_forged :
    forgedSite.WellFormed ∧ resolve forgedSite servedRoot forgedUrl = .listing forgedPage ∧
      Reading.tags .text (template 2) =
        "<!DOCTYPE html><html><head><meta charset=\"\"><title></title></head><body><h1></h1><ul>".toList ++
          "<li><a href=\"\"></a></li><li><a href=\"\"></a></li></ul></body></html>".toList ∧
      Reading.tags .text forgedPage =
        "<!DOCTYPE html><html><head><meta charset=\"\"><title></title></head><body><h1></h1><ul>".toList ++
          "<li><a href=\"\"></a></li><li><a href=\"\" onclick=\"\"></a></li></ul></body></html>".toList ∧
      markup forgedPage ≠ markup (template 2) := by
  have hpath : requestPath forgedUrl = "x\" onclick=\"y".toList := by cbv
  refine ⟨by decide, ?_, by decide +kernel, by decide +kernel, by decide +kernel⟩
  rw [resolve_eq_iff, hpath]
  exact .listing (by decide) (by cbv) (by cbv) (by cbv) (by cbv)

end Preview
end StaticSite
