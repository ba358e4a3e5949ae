import Exports.Language
import Exports.Text.Class

namespace Exports

structure ScriptBlock where
  content : List Char
  language : Language
  /-- Line of the file on which the content starts. -/
  firstLine : Nat
  isSetup : Bool
  deriving DecidableEq, Repr

namespace ScriptBlock

/-- An opening tag: where its content starts, and its attributes. -/
structure OpenTag where
  contentStart : Nat
  attributes : List Char
  deriving DecidableEq, Repr

/-- Attributes of the opening tag at the front. The tag's name ends where its word ends. -/
def attributesAt (cs : List Char) : Option (List Char) := do
  let rest ← "<script".toList.isPrefixOf? cs
  if rest.head?.any Text.Class.isWordPart then none
  let (attributes, _) ← Text.cutFirst '>' rest
  some attributes

/-- Opening tags from left to right; none starts inside another. -/
def openTagsFrom (offset : Nat) : Nat → List Char → List OpenTag
  | _, [] => []
  | skip + 1, _ :: cs => openTagsFrom (offset + 1) skip cs
  | 0, c :: cs =>
    match attributesAt (c :: cs) with
    | some attributes =>
      let length := "<script".length + attributes.length + 1
      ⟨offset + length, attributes⟩ :: openTagsFrom (offset + 1) (length - 1) cs
    | none => openTagsFrom (offset + 1) 0 cs

def openTags (text : List Char) : List OpenTag := openTagsFrom 0 0 text

/-- Quoted word at the front, letters only. -/
def quotedWord : List Char → Option (List Char)
  | q :: cs =>
    let word := cs.takeWhile Char.isAlpha
    let isQuote (c : Char) := c = '\x22' || c = '\x27'
    if isQuote q && !word.isEmpty && (cs.drop word.length).head?.any isQuote then some word
    else none
  | [] => none

/-- Value of a `lang` attribute at the front. -/
def languageAt (cs : List Char) : Option (List Char) := do
  let rest ← "lang".toList.isPrefixOf? cs
  let rest ← ['='].isPrefixOf? (rest.dropWhile Text.Class.isBlank)
  quotedWord (rest.dropWhile Text.Class.isBlank)

/-- First `lang` attribute that no word runs into. -/
def languageWord (inWord : Bool) : List Char → Option (List Char)
  | [] => none
  | c :: cs =>
    match if inWord then none else languageAt (c :: cs) with
    | some word => some word
    | none => languageWord (Text.Class.isWordPart c) cs

def languageOf (attributes : List Char) : Language :=
  match (languageWord false attributes).map fun w => Text.lowerAscii (String.ofList w) with
  | some "ts" | some "typescript" => .typescript
  | some "tsx" => .tsx
  | some "jsx" => .jsx
  | _ => .javascript

/-- Whether `setup` stands among the attributes as a word of its own. -/
def marksSetup (afterBlank : Bool) : List Char → Bool
  | [] => false
  | c :: cs =>
    let here := match "setup".toList.isPrefixOf? (c :: cs) with
      | some rest => rest.head?.all fun d => d = '=' || Text.Class.isBlank d
      | none => false
    (afterBlank && here) || marksSetup (Text.Class.isBlank c) cs

/-- The block that a tag opens, if a closing tag follows. -/
def ofTag (text : List Char) (tag : OpenTag) : Option ScriptBlock :=
  (Text.cutAt "</script>".toList (text.drop tag.contentStart)).map fun (content, _) =>
    { content
      language := languageOf tag.attributes
      firstLine := max 1 (Text.lineCount (text.take tag.contentStart))
      isSetup := marksSetup true tag.attributes }

/-- The first setup block, otherwise the first block. -/
def find? (text : List Char) : Option ScriptBlock :=
  let blocks := (openTags text).filterMap (ofTag text)
  (blocks.find? (·.isSetup)).or blocks.head?

end ScriptBlock

end Exports
