import StrongSwan.Foundations.Libc
import StrongSwan.Libcharon.Plugins.Vici.ViciBuilder

/-!
The lookups of `vici_message.c` by a dotted key: `find_value` and the getters
`get_value`, `get_str`, `get_int` and `get_bool` over it.

`find_value` prints the key into a 128-byte buffer and walks the elements of the
message once with a depth counter. For each dot-terminated segment it goes on to
the next section start that brings the depth to the segment's position and has
its name; then it takes the first key/value with the last segment's name at that
depth. Names are compared only where a section opens and the walk never stops
at the end of a section, so once the section it descended into closes, a later
section at the same depth serves as well: `findValue_follows_sibling` shows a
key found in a section the path does not name. At the top level there is nothing
to leave, and there the lookup is the one the key names
(`findValue_top_level`).

Owns: `find_value` over the elements the parse enumerator reports, the getters,
`settings_value_as_bool`, the chains of enclosing sections (`withChains`) and
the lookup they define (`valueAt`).

Does not own: the printing of the key from a format and its arguments (the
model takes the printed key), the enumeration itself (`ViciMessage`), and the
strings the getters keep for the caller.
-/

namespace StrongSwan.Libcharon.Plugins.Vici

open StrongSwan.Foundations.Libc

/-- The descent loop of `find_value` for one segment: the elements are enumerated
up to a section start that brings the depth (the source's `section`) to
`keysection` with the segment's name, or up to the end. -/
def descendTo (key : List UInt8) (keysection : Int) : Int → List Element → Int × List Element
  | depth, [] => (depth, [])
  | depth, element :: rest =>
    match element with
    | .sectionStart name =>
      if depth + 1 = keysection ∧ name = key then (depth + 1, rest)
      else descendTo key keysection (depth + 1) rest
    | .sectionEnd => descendTo key keysection (depth - 1) rest
    | .keyValue _ _ | .listStart _ | .listItem _ | .listEnd => descendTo key keysection depth rest
    -- at the end every further call reports the end again
    | .messageEnd => (depth, [])

/-- The search loop of `find_value`: the value of the first key/value named `key`
at depth `keysection`, or nothing at the end. -/
def searchKey (key : List UInt8) (keysection : Int) : Int → List Element → Option (List UInt8)
  | _, [] => none
  | depth, element :: rest =>
    match element with
    | .keyValue name value =>
      if depth = keysection ∧ key = name then some value else searchKey key keysection depth rest
    | .sectionStart _ => searchKey key keysection (depth + 1) rest
    | .sectionEnd => searchKey key keysection (depth - 1) rest
    | .listStart _ | .listItem _ | .listEnd => searchKey key keysection depth rest
    | .messageEnd => none

/-- The segments of the buffer from the one at `keysection + 1` on: a descent for
each but the last, then the search for the last. -/
def findValueFrom : List (List UInt8) → Int → Int → List Element → Option (List UInt8)
  | [], _, _, _ => none
  | [key], keysection, depth, elements => searchKey key keysection depth elements
  | key :: next :: rest, keysection, depth, elements =>
    let descended := descendTo key (keysection + 1) depth elements
    findValueFrom (next :: rest) (keysection + 1) descended.1 descended.2

/-- `find_value` over the elements the enumerator reports: the key as printed into
`buf[128]`, split at its dots. -/
def findValue (key : List UInt8) (elements : List Element) : Option (List UInt8) :=
  findValueFrom ((key.take 127).splitOn 0x2e) 0 0 elements

/-- `get_value`. -/
def getValue (default key : List UInt8) (elements : List Element) : List UInt8 :=
  (findValue key elements).getD default

/-- `get_str`: the value found if it is printable, else the default (which may be
`NULL`). -/
def getStr (default : Option (List UInt8)) (key : List UInt8) (elements : List Element) :
    Option (List UInt8) :=
  match findValue key elements with
  | some value => if chunkPrintable value then some value else default
  | none => default

/-- The text of a printable value as `snprintf` copies it into a buffer of `size`
bytes. -/
def printedText (size : Nat) (value : List UInt8) : List Char :=
  (value.take (size - 1)).map fun byte => Char.ofNat byte.toNat

/-- `get_int`: a non-empty printable value copied into `buf[32]` and read by
`strtol` in base 0, if that reads all of it without `ERANGE`, and converted to
`int`. -/
def getInt (default : Int32) (key : List UInt8) (elements : List Element) : Int32 :=
  match findValue key elements with
  | some value =>
    if value.length = 0 then default
    else if chunkPrintable value then
      let text := printedText 32 value
      let read := strtol text
      if read.2.2 = false ∧ read.2.1 = text.length then Int32.ofInt read.1 else default
    else default
  | none => default

/-- Byte lists of the words `settings_value_as_bool` knows: "1", "yes", "true",
"enabled", and "0", "no", "false", "disabled". -/
def trueWords : List (List UInt8) :=
  [[0x31], [0x79, 0x65, 0x73], [0x74, 0x72, 0x75, 0x65], [0x65, 0x6e, 0x61, 0x62, 0x6c, 0x65, 0x64]]

def falseWords : List (List UInt8) :=
  [[0x30], [0x6e, 0x6f], [0x66, 0x61, 0x6c, 0x73, 0x65], [0x64, 0x69, 0x73, 0x61, 0x62, 0x6c, 0x65, 0x64]]

def toLowerAscii (byte : UInt8) : UInt8 := if 0x41 ≤ byte ∧ byte ≤ 0x5a then byte + 0x20 else byte

/-- `strcaseeq`. -/
def strcaseeq (text other : List UInt8) : Bool := text.map toLowerAscii == other.map toLowerAscii

/-- `settings_value_as_bool` of `settings.c`. -/
def settingsValueAsBool (value : List UInt8) (default : Bool) : Bool :=
  if trueWords.any (strcaseeq value) then true
  else if falseWords.any (strcaseeq value) then false
  else default

/-- `get_bool`: a non-empty printable value copied into `buf[16]` and read by
`settings_value_as_bool`. -/
def getBool (default : Bool) (key : List UInt8) (elements : List Element) : Bool :=
  match findValue key elements with
  | some value =>
    if value.length = 0 then default
    else if chunkPrintable value then settingsValueAsBool (value.take 15) default
    else default
  | none => default

/-! ## The lookup a key names -/

/-- The sections around the element after this one, outermost first. -/
def Element.nextChain (element : Element) (chain : List (List UInt8)) : List (List UInt8) :=
  match element with
  | .sectionStart name => chain ++ [name]
  | .sectionEnd => chain.dropLast
  | .keyValue _ _ | .listStart _ | .listItem _ | .listEnd | .messageEnd => chain

theorem Element.nextChain_def (element : Element) (chain : List (List UInt8)) :
    element.nextChain chain =
      match element with
      | .sectionStart name => chain ++ [name]
      | .sectionEnd => chain.dropLast
      | .keyValue _ _ | .listStart _ | .listItem _ | .listEnd | .messageEnd => chain := rfl

/-- Each element with the names of the sections around it, outermost first. -/
def withChains : List (List UInt8) → List Element → List (List (List UInt8) × Element)
  | _, [] => []
  | chain, element :: rest => (chain, element) :: withChains (element.nextChain chain) rest

theorem withChains_nil (chain : List (List UInt8)) : withChains chain [] = [] := rfl

theorem withChains_cons (chain : List (List UInt8)) (element : Element) (rest : List Element) :
    withChains chain (element :: rest) = (chain, element) :: withChains (element.nextChain chain) rest := rfl

/-- What one element with its chain gives the lookup of `key` in `sections`. -/
def chainValue (sections : List (List UInt8)) (key : List UInt8) (entry : List (List UInt8) × Element) :
    Option (List UInt8) :=
  match entry.2 with
  | .keyValue name value => if entry.1 = sections ∧ name = key then some value else none
  | .sectionStart _ | .sectionEnd | .listStart _ | .listItem _ | .listEnd | .messageEnd => none

theorem chainValue_def (sections : List (List UInt8)) (key : List UInt8) (entry : List (List UInt8) × Element) :
    chainValue sections key entry =
      match entry.2 with
      | .keyValue name value => if entry.1 = sections ∧ name = key then some value else none
      | .sectionStart _ | .sectionEnd | .listStart _ | .listItem _ | .listEnd | .messageEnd => none := rfl

/-- The value a dotted key names: that of the first key/value named `key` whose
enclosing sections are `sections`. -/
def valueAt (sections : List (List UInt8)) (key : List UInt8) (elements : List Element) :
    Option (List UInt8) :=
  (withChains [] elements).findSome? (chainValue sections key)

/-- A section "s" left empty, then a section "t" with the key "k"; the key "s.k" names
nothing in it. -/
def siblingElements : List Element :=
  [.sectionStart [0x73], .sectionEnd, .sectionStart [0x74], .keyValue [0x6b] [0x76], .sectionEnd]

/-- The same with a subsection "u" in "t" holding "k"; "s.u.k" names nothing. -/
def nestedSiblingElements : List Element :=
  [.sectionStart [0x73], .sectionEnd, .sectionStart [0x74], .sectionStart [0x75],
    .keyValue [0x6b] [0x76], .sectionEnd, .sectionEnd]

theorem findValue_follows_sibling :
    Body siblingElements ∧
      enumerateMessage (siblingElements.flatMap Element.bytes) = some (siblingElements ++ [.messageEnd]) ∧
      valueAt [[0x73]] [0x6b] siblingElements = none ∧
      getValue [] [0x73, 0x2e, 0x6b] (siblingElements ++ [.messageEnd]) = [0x76] ∧
      getStr none [0x73, 0x2e, 0x6b] (siblingElements ++ [.messageEnd]) = some [0x76] ∧
      Body nestedSiblingElements ∧
      enumerateMessage (nestedSiblingElements.flatMap Element.bytes) =
        some (nestedSiblingElements ++ [.messageEnd]) ∧
      valueAt [[0x73], [0x75]] [0x6b] nestedSiblingElements = none ∧
      getValue [] [0x73, 0x2e, 0x75, 0x2e, 0x6b] (nestedSiblingElements ++ [.messageEnd]) = [0x76] :=
  ⟨.subsection _ .nil (.subsection _ (.keyValue _ _ .nil) .nil), rfl, rfl, rfl, rfl,
    .subsection _ .nil (.subsection _ (.subsection _ (.keyValue _ _ .nil) .nil) .nil), rfl, rfl, rfl⟩

/-! ## Keys at the top level -/

theorem searchKey_items (key : List UInt8) (keysection depth : Int) (values : List (List UInt8))
    (rest : List Element) :
    searchKey key keysection depth (values.map .listItem ++ rest) = searchKey key keysection depth rest := by
  induction values with
  | nil => rfl
  | cons value values inductionHypothesis => exact inductionHypothesis

/-- Below the depth searched for, a well-nested body is walked past: it opens no
more sections than it closes. -/
theorem searchKey_body_above {inner : List Element} (body : Body inner) (key : List UInt8)
    {keysection : Int} (depth : Int) (above : keysection < depth) (rest : List Element) :
    searchKey key keysection depth (inner ++ rest) = searchKey key keysection depth rest := by
  induction body generalizing depth rest with
  | nil => rfl
  | keyValue name value body inductionHypothesis =>
    simp only [List.cons_append, searchKey]
    rw [if_neg (by omega)]
    exact inductionHypothesis depth above rest
  | list name values body inductionHypothesis =>
    simp only [List.append_assoc, List.cons_append, searchKey, searchKey_items]
    exact inductionHypothesis depth above rest
  | subsection name innerBody restBody innerHypothesis restHypothesis =>
    simp only [List.append_assoc, List.cons_append, searchKey]
    rw [innerHypothesis (depth + 1) (by omega)]
    simp only [searchKey, Int.add_sub_cancel]
    exact restHypothesis depth above rest

theorem withChains_items (chain : List (List UInt8)) (values : List (List UInt8)) (rest : List Element) :
    withChains chain (values.map .listItem ++ rest) =
      (values.map .listItem).map (chain, ·) ++ withChains chain rest := by
  induction values with
  | nil => rfl
  | cons value values inductionHypothesis => simp [withChains_cons, Element.nextChain_def, inductionHypothesis]

/-- A well-nested body leaves the chain it starts in, so the chains of what follows
do not depend on it. -/
theorem withChains_body {inner : List Element} (body : Body inner) (chain : List (List UInt8))
    (rest : List Element) : withChains chain (inner ++ rest) = withChains chain inner ++ withChains chain rest := by
  induction body generalizing chain rest with
  | nil => rfl
  | keyValue name value body inductionHypothesis =>
    simp [withChains_cons, Element.nextChain_def, inductionHypothesis]
  | list name values body inductionHypothesis =>
    simp only [List.append_assoc, List.cons_append, withChains_cons, Element.nextChain_def, withChains_items,
      inductionHypothesis]
  | subsection name innerBody restBody innerHypothesis restHypothesis =>
    simp only [List.append_assoc, List.cons_append, withChains_cons, Element.nextChain_def, innerHypothesis,
      List.dropLast_concat, restHypothesis]

/-- Inside a well-nested body every chain extends the one it starts in. -/
theorem prefix_of_mem_withChains {inner : List Element} (body : Body inner) (chain : List (List UInt8)) :
    ∀ entry ∈ withChains chain inner, chain <+: entry.1 := by
  induction body generalizing chain with
  | nil => simp [withChains_nil]
  | keyValue name value body inductionHypothesis =>
    simpa [withChains_nil, withChains_cons, Element.nextChain_def] using inductionHypothesis chain
  | list name values body inductionHypothesis =>
    simp only [List.cons_append, withChains_cons, Element.nextChain_def, withChains_items]
    intro entry member
    simp only [List.mem_cons, List.mem_append, List.mem_map] at member
    rcases member with rfl | ⟨_, ⟨_, -, rfl⟩, rfl⟩ | rfl | later
    · exact List.prefix_refl chain
    · exact List.prefix_refl chain
    · exact List.prefix_refl chain
    · exact inductionHypothesis chain entry later
  | @subsection name inner rest innerBody restBody innerHypothesis restHypothesis =>
    simp only [List.cons_append, withChains_cons, Element.nextChain_def]
    rw [withChains_body innerBody]
    simp only [withChains_cons, Element.nextChain_def, List.dropLast_concat]
    intro entry member
    simp only [List.mem_cons, List.mem_append] at member
    rcases member with rfl | inside | rfl | later
    · exact List.prefix_refl chain
    · exact (List.prefix_append chain [name]).trans (innerHypothesis (chain ++ [name]) entry inside)
    · exact List.prefix_append chain [name]
    · exact restHypothesis chain entry later

/-- The search at depth 0 of a well-nested body followed by more finds the body's
first top-level key/value of the name, and otherwise what the rest gives. -/
theorem searchKey_top_level {elements : List Element} (body : Body elements) (key : List UInt8)
    (rest : List Element) :
    searchKey key 0 0 (elements ++ rest) = (valueAt [] key elements).or (searchKey key 0 0 rest) := by
  induction body generalizing rest with
  | nil => rfl
  | keyValue name value body inductionHypothesis =>
    simp only [valueAt] at inductionHypothesis ⊢
    simp only [List.cons_append, searchKey, withChains_cons, List.findSome?_cons, chainValue_def]
    by_cases named : key = name
    · simp [named]
    · simpa [named, Ne.symm named, Element.nextChain_def] using inductionHypothesis rest
  | list name values body inductionHypothesis =>
    simp only [valueAt] at inductionHypothesis ⊢
    have itemsNone : ((values.map .listItem).map (([] : List (List UInt8)), ·)).findSome? (chainValue [] key) = none := by
      simp [List.findSome?_eq_none_iff, chainValue_def]
    simp only [List.append_assoc, List.cons_append, searchKey, searchKey_items, inductionHypothesis,
      withChains, Element.nextChain, withChains_items, List.findSome?_cons, List.findSome?_append, itemsNone]
    simp [chainValue_def]
  | @subsection name inner after innerBody restBody innerHypothesis restHypothesis =>
    -- the keys inside the section have a chain below the top, and the search is deeper there
    have insideNone : (withChains [name] inner).findSome? (chainValue [] key) = none := by
      rw [List.findSome?_eq_none_iff]
      intro entry member
      obtain ⟨chain, element⟩ := entry
      have deeper := prefix_of_mem_withChains innerBody [name] (chain, element) member
      have notTop : chain ≠ [] := fun top => by simp [top] at deeper
      cases element <;> simp [chainValue_def, notTop]
    simp only [valueAt] at restHypothesis ⊢
    simp only [List.append_assoc, List.cons_append, searchKey, Int.zero_add]
    rw [searchKey_body_above innerBody key 1 (by omega)]
    simp only [searchKey, Int.sub_self, restHypothesis rest, withChains_cons, Element.nextChain_def, List.nil_append]
    rw [withChains_body innerBody]
    simp only [withChains_cons, Element.nextChain_def, List.findSome?_cons, List.findSome?_append, insideNone,
      List.dropLast_singleton]
    simp [chainValue_def]

/-- Without a dot, a key of at most 127 bytes names a top-level key/value: on a
well-nested message, `get_value` gives the value of the first one with that name,
and the default where there is none. -/
theorem findValue_top_level {elements : List Element} (body : Body elements) (default : List UInt8)
    {key : List UInt8} (noDot : 0x2e ∉ key) (fits : key.length ≤ 127) :
    getValue default key (elements ++ [.messageEnd]) = (valueAt [] key elements).getD default := by
  have segments : (key.take 127).splitOn 0x2e = [key] := by
    rw [List.take_of_length_le fits]
    exact List.splitOn_eq_singleton noDot
  rw [getValue, findValue, segments, findValueFrom, searchKey_top_level body]
  cases valueAt [] key elements <;> rfl

/-- The section "c" and a top-level key "k" after it. -/
def topLevelElements : List Element :=
  [.sectionStart [0x63], .keyValue [0x6b] [0x31], .sectionEnd, .keyValue [0x6b] [0x32]]

theorem findValue_top_level_after_section :
    Body topLevelElements ∧ (0x2e : UInt8) ∉ [0x6b] ∧ [0x6b].length ≤ 127 ∧
      getValue [] [0x6b] (topLevelElements ++ [.messageEnd]) = [0x32] :=
  have body : Body topLevelElements := .subsection _ (.keyValue _ _ .nil) (.keyValue _ _ .nil)
  ⟨body, by decide, by decide, (findValue_top_level body [] (by decide) (by decide)).trans rfl⟩

end StrongSwan.Libcharon.Plugins.Vici
