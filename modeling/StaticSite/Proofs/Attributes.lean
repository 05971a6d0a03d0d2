import StaticSite.Proofs.Escaping

/-! A listing as a client reads it: the values of its attributes stand between quotes. They are
those of its items, which lead upwards and to the names in the directory. -/
namespace StaticSite

namespace Listing

variable {c : Char} {target label value request : Text}

/-! ### The attributes of a page -/

def everySecond : List Text → List Text
  | _ :: value :: rest => value :: everySecond rest
  | _ => []

def attributes (html : Text) : List Text := everySecond (Text.splitBy (· == '"') html)

theorem attributes_quoted (hlabel : '"' ∉ label) (hvalue : '"' ∉ value) (rest : Text) :
    attributes (label ++ '"' :: (value ++ '"' :: rest)) = value :: attributes rest := by
  rw [attributes, Text.splitBy_append_of_notMem hlabel, Text.splitBy_append_of_notMem hvalue]
  rfl

theorem everySecond_cons (t u : Text) (ts : List Text) :
    everySecond (t :: ts) = everySecond (u :: ts) := by
  cases ts <;> rfl

theorem attributes_append (hlabel : '"' ∉ label) (rest : Text) :
    attributes (label ++ rest) = attributes rest := by
  induction label with
  | nil => rfl
  | cons c label ih =>
    obtain ⟨hc, hrest⟩ := not_or.1 (List.mem_cons.not.1 hlabel)
    rw [← ih hrest, attributes, attributes, List.cons_append, Text.splitBy,
      if_neg (by simpa using Ne.symm hc)]
    cases hsplit : Text.splitBy (· == '"') (label ++ rest) with
    | nil => exact absurd hsplit (Text.splitBy_ne_nil _ _)
    | cons t ts => exact everySecond_cons _ _ ts

theorem item_eq (target label : Text) :
    item target label = "<li><a href=".toList ++ '"' ::
      (target ++ '"' :: ('>' :: label ++ "</a></li>".toList)) := by
  have happend (a b c d e : Text) : a ++ b ++ c ++ d ++ e = a ++ (b ++ (c ++ (d ++ e))) := by
    simp only [List.append_assoc]
  exact happend _ target _ label _

theorem attributes_item_append (htarget : '"' ∉ target) (hlabel : '"' ∉ label) (rest : Text) :
    attributes (item target label ++ rest) = target :: attributes rest := by
  have hend : '"' ∉ '>' :: label ++ "</a></li>".toList := by simp [hlabel]
  rw [item_eq, List.append_assoc, List.cons_append, List.append_assoc, List.cons_append,
    attributes_quoted (by decide) htarget, attributes_append hend]

theorem exists_attributes_item (target label : Text) :
    ∃ more, attributes (item target label) = target.takeWhile (· != '"') :: more := by
  rw [item_eq]
  by_cases hquote : '"' ∈ target
  · obtain ⟨value, rest, rfl, hvalue⟩ := List.eq_append_cons_of_mem hquote
    rw [Text.takeWhile_append_cons hvalue, List.append_assoc, List.cons_append,
      attributes_quoted (by decide) hvalue]
    exact ⟨_, rfl⟩
  · rw [Text.takeWhile_eq_self hquote, attributes_quoted (by decide) hquote]
    exact ⟨_, rfl⟩

theorem attributes_join {links : List (Text × Text)} (h : ∀ l ∈ links, '"' ∉ l.1 ∧ '"' ∉ l.2)
    (rest : Text) :
    attributes (Text.join ['\n'] (links.map fun l => item l.1 l.2) ++ rest) = links.map (·.1) ++
      attributes rest := by
  induction links with
  | nil => rfl
  | cons l links ih =>
    obtain ⟨⟨htarget, hlabel⟩, hlinks⟩ := List.forall_mem_cons.1 h
    by_cases hnil : links = []
    · subst hnil
      exact attributes_item_append htarget hlabel rest
    · rw [List.map_cons, Text.join_cons _ _ (by simpa using hnil), List.append_assoc,
        List.append_assoc, attributes_item_append htarget hlabel, attributes_append (by decide),
        ih hlinks]
      rfl

/-! ### The items of a listing -/

def start (request : Text) : Text := if request = [] then [] else '/' :: request

def href (request name : Text) : Text := start request ++ '/' :: escapeHtml name

def parentHref (request : Text) : Text := '/' :: (((Path.mk request).parent?).getD ⟨[]⟩).text

def upItems (request : Text) : List Text := if request = [] then [] else [parentItem request]

def upHrefs (request : Text) : List Text := if request = [] then [] else [parentHref request]

theorem mem_parent {p q : Path} (h : p.parent? = some q) (hc : c ∈ q.text) : c ∈ p.text := by
  rw [Path.parent?] at h
  split at h
  · cases h
  · cases h
  · rw [← Option.some.inj h, Path.span] at hc
    split at hc
    · exact List.mem_of_mem_take (List.mem_of_mem_drop hc)
    · cases hc

theorem notMem_parentHref (hc : c ≠ '/') (h : c ∉ request) : c ∉ parentHref request := by
  rw [parentHref, List.mem_cons]
  rintro (hslash | hmem)
  · exact hc hslash
  · cases hparent : (Path.mk request).parent? with
    | none => simp [hparent] at hmem
    | some q =>
      rw [hparent] at hmem
      exact h (mem_parent hparent hmem)

theorem ne_slash (hc : c = '<' ∨ c = '>' ∨ c = '"') : c ≠ '/' := by
  rcases hc with rfl | rfl | rfl <;> decide

theorem mem_href_iff (hc : c = '<' ∨ c = '>' ∨ c = '"') (name : Text) :
    c ∈ href request name ↔ c ∈ request := by
  rw [href, List.mem_append, List.mem_cons,
    or_iff_left (not_or.2 ⟨ne_slash hc, notMem_escapeHtml hc name⟩), start]
  split
  next hnil => rw [hnil]
  next => rw [List.mem_cons, or_iff_right (ne_slash hc)]

theorem items_eq (entries : List (Text × Node)) (request : Text) :
    items entries request = upItems request ++
      (entries.filter fun e => isShown e.1).map fun e => entryItem (start request) e.1 e.2 := rfl

/-- The links of a page, each with its label. -/
def links (entries : List (Text × Node)) (request : Text) : List (Text × Text) :=
  (if request = [] then [] else [(parentHref request, "..".toList)]) ++
    (entries.filter fun e => isShown e.1).map fun e =>
      (href request e.1, escapeHtml e.1 ++ if e.2.isDirectory then ['/'] else [])

theorem items_eq_links (entries : List (Text × Node)) (request : Text) :
    items entries request = (links entries request).map fun l => item l.1 l.2 := by
  rw [items_eq, links, List.map_append, List.map_map, upItems]
  split <;> rfl

theorem map_fst_links (entries : List (Text × Node)) (request : Text) :
    (links entries request).map (·.1) =
      upHrefs request ++ (entries.filter fun e => isShown e.1).map fun e => href request e.1 := by
  rw [links, List.map_append, List.map_map, upHrefs]
  split <;> rfl

theorem notMem_label (hc : c = '<' ∨ c = '>' ∨ c = '"') {l : Text × Text}
    {entries : List (Text × Node)} (hl : l ∈ links entries request) : c ∉ l.2 := by
  rcases List.mem_append.1 hl with hup | hentry
  · split at hup
    · cases hup
    · obtain rfl := List.mem_singleton.1 hup
      have hdots : '<' ∉ "..".toList ∧ '>' ∉ "..".toList ∧ '"' ∉ "..".toList := by decide
      rcases hc with rfl | rfl | rfl
      exacts [hdots.1, hdots.2.1, hdots.2.2]
  · obtain ⟨e, -, rfl⟩ := List.mem_map.1 hentry
    have hname := notMem_escapeHtml hc e.1
    dsimp only
    split <;> simp [hname, ne_slash hc]

theorem quote_notMem_target (h : '"' ∉ request) {l : Text × Text} {entries : List (Text × Node)}
    (hl : l ∈ links entries request) : '"' ∉ l.1 := by
  rcases List.mem_append.1 hl with hup | hentry
  · split at hup
    · cases hup
    · obtain rfl := List.mem_singleton.1 hup
      exact notMem_parentHref (by decide) h
  · obtain ⟨e, -, rfl⟩ := List.mem_map.1 hentry
    exact mt (mem_href_iff (by simp) e.1).1 h

def title (request : Text) : Text :=
  "><title>".toList ++ (escapeHtml ('/' :: request) ++ ("</title></head>\n<body>\n<h1>".toList ++
    (escapeHtml ('/' :: request) ++ "</h1>\n<ul>\n".toList)))

theorem page_eq (entries : List (Text × Node)) (request : Text) :
    page entries request = "<!DOCTYPE html>\n<html>\n<head><meta charset=".toList ++ '"' ::
      ("utf-8".toList ++ '"' ::
      (title request ++ (Text.join ['\n'] (items entries request) ++
        "\n</ul>\n</body>\n</html>\n".toList))) := by
  have hopen : "<!DOCTYPE html>\n<html>\n<head><meta charset=\"utf-8\"><title>".toList =
      "<!DOCTYPE html>\n<html>\n<head><meta charset=".toList ++ '"' ::
      ("utf-8".toList ++ '"' :: "><title>".toList) := by
    decide
  have hregroup (a v b t c d j z : Text) :
      (a ++ '"' :: (v ++ '"' :: b)) ++ t ++ c ++ t ++ d ++ j ++ z =
      a ++ '"' :: (v ++ '"' :: ((b ++ (t ++ (c ++ (t ++ d)))) ++ (j ++ z))) := by
    simp only [List.append_assoc, List.cons_append]
  refine Eq.trans ?_ (hregroup _ _ _ (escapeHtml ('/' :: request))
    _ _ (Text.join ['\n'] (items entries request)) _)
  exact congrArg (· ++ _ ++ _ ++ _ ++ _ ++ _ ++ _) hopen

theorem exists_title_append (request rest : Text) :
    ∃ more, title request ++ rest = "><title>".toList ++
      (escapeHtml ('/' :: request) ++ '<' :: more) := by
  have hregroup (a b c t : Text) : a ++ (b ++ c) ++ t = a ++ (b ++ (c ++ t)) := by
    simp only [List.append_assoc]
  exact ⟨_, hregroup _ _ _ _⟩

theorem quote_notMem_title (request : Text) : '"' ∉ title request := by
  have htitle := notMem_escapeHtml (c := '"') (by simp) ('/' :: request)
  have hfixed : '"' ∉ "><title>".toList ∧ '"' ∉ "</title></head>\n<body>\n<h1>".toList ∧
      '"' ∉ "</h1>\n<ul>\n".toList := by
    decide
  exact List.not_mem_append hfixed.1 (List.not_mem_append htitle
    (List.not_mem_append hfixed.2.1 (List.not_mem_append htitle hfixed.2.2)))

theorem attributes_page_of_links {entries : List (Text × Node)}
    (h : ∀ l ∈ links entries request, '"' ∉ l.1) :
    attributes (page entries request) = "utf-8".toList :: (links entries request).map (·.1) := by
  have hend : '"' ∉ "\n</ul>\n</body>\n</html>\n".toList := by decide
  have hquote : ∀ l ∈ links entries request, '"' ∉ l.1 ∧ '"' ∉ l.2 :=
    fun l hl => ⟨h l hl, notMem_label (by simp) hl⟩
  rw [page_eq, attributes_quoted (by decide) (by decide),
    attributes_append (quote_notMem_title request), items_eq_links, attributes_join hquote,
    ← List.append_nil "\n</ul>\n</body>\n</html>\n".toList, attributes_append hend]
  exact congrArg _ (List.append_nil _)

theorem attributes_page (entries : List (Text × Node)) (hquote : '"' ∉ request) :
    attributes (page entries request) = "utf-8".toList ::
      (upHrefs request ++ (entries.filter fun e => isShown e.1).map fun e => href request e.1) := by
  rw [attributes_page_of_links fun _ => quote_notMem_target hquote, map_fst_links]

end Listing

end StaticSite
