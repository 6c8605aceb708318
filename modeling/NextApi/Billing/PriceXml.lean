import NextApi.Error
import NextApi.Json.Compact
import NextApi.Xml.Indent
import NextApi.Xml.Reader

/-!
# Price files in XML

Price rules are exported as items, one for an upstream, a model and a currency, with the four prices
of tokens, the segments of their units and the rules for images and videos (`BuildExportItems`). The
items are written on one line (`exportXmlCompact`) and then indented (`prettyXml`). An import reads
the events of the file into a tree (`parseTree`) and takes the items out of it by the names of the
elements (`parseXml`).

The values of a rule's dimensions may be of any type and its segments any document: what is no list
of segments is not written. Decimals, the text of a document and the reader of XML are parameters.
-/

set_option autoImplicit false

namespace NextApi.Transfer

open Json Xml
open Text (trim)

/-! ### Parameters -/

/-- Decimals, with the digits after the point that they were given with. -/
class Decimals (D : Type) where
  display : D → List Char
  parse : List Char → Option D
  ofJson : Value → Option D
  zero : D

open Decimals

class LawfulDecimals (D : Type) [Decimals D] : Prop where
  parse_display (d : D) : parse (display d) = some d
  display_chars (d : D) : ∀ c ∈ display d, c.isDigit = true ∨ c = '-' ∨ c = '.'

/-- An integer of 64 bits. -/
abbrev I64 := { i : ℤ // -2 ^ 63 ≤ i ∧ i < 2 ^ 63 }

def checkI64 (i : ℤ) : Option I64 :=
  if h : -2 ^ 63 ≤ i ∧ i < 2 ^ 63 then some ⟨i, h⟩ else none

/-- `parse::<i64>`: decimal digits after a sign or not. -/
def parseI64 (text : List Char) : Option I64 :=
  match text with
  | '-' :: rest => (digits rest).bind fun n ↦ checkI64 (-n)
  | '+' :: rest => (digits rest).bind fun n ↦ checkI64 n
  | rest => (digits rest).bind fun n ↦ checkI64 n
where
  digits (rest : List Char) : Option ℕ :=
    if rest ≠ [] ∧ rest.all Char.isDigit then some (Nat.ofDigitChars 10 rest 0) else none

/-! ### Segments -/

structure Segment (D : Type) where
  name : Option String
  price : D
  weekdays : Option (List String)
  windows : Option (List (String × String))
  minPromptTokens : Option I64
  maxPromptTokens : Option I64
  deriving DecidableEq

/-- A field that may be missing or `null`. -/
def readOption {α : Type} (read : Value → Option α) : Option Value → Option (Option α)
  | none => some none
  | some .null => some none
  | some v => (read v).map some

def readStrings (v : Value) : Option (List String) :=
  v.asArray.bind fun items ↦ items.mapM Value.asStr

def readWindow : Value → Option (String × String)
  | .arr [.str start, .str stop] => some (start, stop)
  | _ => none

def readWindows (v : Value) : Option (List (String × String)) :=
  v.asArray.bind fun items ↦ items.mapM readWindow

def readI64 : Value → Option I64
  | .int i => checkI64 i
  | _ => none

section Reading

variable {D : Type} [Decimals D]

def readFields (name price weekdays windows minPromptTokens maxPromptTokens : Option Value) :
    Option (Segment D) := do
  let name ← readOption Value.asStr name
  let price ← price.bind ofJson
  let weekdays ← readOption readStrings weekdays
  let windows ← readOption readWindows windows
  let minPromptTokens ← readOption readI64 minPromptTokens
  let maxPromptTokens ← readOption readI64 maxPromptTokens
  return { name, price, weekdays, windows, minPromptTokens, maxPromptTokens }

/-- The derived reader of a segment, which also takes the fields in their order. -/
def readSegment : Value → Option (Segment D)
  | .obj m => readFields (Map.get? m "name") (Map.get? m "price") (Map.get? m "weekdays")
      (Map.get? m "windows") (Map.get? m "min_prompt_tokens") (Map.get? m "max_prompt_tokens")
  | .arr [name, price, weekdays, windows, minPromptTokens, maxPromptTokens] =>
    readFields (some name) (some price) (some weekdays) (some windows) (some minPromptTokens)
      (some maxPromptTokens)
  | _ => none

def readSegments (v : Value) : Option (List (Segment D)) :=
  v.asArray.bind fun items ↦ items.mapM readSegment

def decimalValue (d : D) : Value := .str (String.ofList (display d))

/-- The derived printer of a segment. -/
def segmentValue (seg : Segment D) : Value :=
  .object [("name", (seg.name.map Value.str).getD .null), ("price", decimalValue seg.price),
    ("weekdays", (seg.weekdays.map fun days ↦ .arr (days.map Value.str)).getD .null),
    ("windows", (seg.windows.map fun windows ↦
      .arr (windows.map fun w ↦ .arr [.str w.1, .str w.2])).getD .null),
    ("min_prompt_tokens", (seg.minPromptTokens.map fun i ↦ Value.int i.1).getD .null),
    ("max_prompt_tokens", (seg.maxPromptTokens.map fun i ↦ Value.int i.1).getD .null)]

end Reading

/-! ### Items -/

structure PriceExportItem (D : Type) where
  modelId : String := ""
  upstream : String := ""
  currency : String := ""
  inputPerM : Option D := none
  outputPerM : Option D := none
  cacheReadPerM : Option D := none
  cacheWritePerM : Option D := none
  segments : Option Value := none
  image : Option Value := none
  video : Option Value := none
  deriving DecidableEq

/-- What the export reads of a price rule. -/
structure PriceRuleRow (U D : Type) where
  upstreamId : U
  modelId : String
  unit : String
  currency : String
  basePrice : D
  dimensions : Option Value
  dimensionKey : String
  segments : Option Value

structure ItemAgg (D : Type) where
  modelId : String
  upstream : String
  currency : String
  inputPerM : Option D := none
  outputPerM : Option D := none
  cacheReadPerM : Option D := none
  cacheWritePerM : Option D := none
  segments : Map := []
  image : List Value := []
  video : List Value := []

section Building

variable {U D : Type} [DecidableEq U] [Decimals D]

def mediaExportValue (row : PriceRuleRow U D) : Value :=
  let m := Map.insert [] "base_price" (decimalValue row.basePrice)
  let m := Map.insert m "dimension_key" (.str row.dimensionKey)
  let m := Map.insertOpt m "dimensions" row.dimensions
  .obj (Map.insertOpt m "segments" row.segments)

def ItemAgg.addRow (agg : ItemAgg D) (row : PriceRuleRow U D) : ItemAgg D :=
  let agg :=
    match row.unit with
    | "token_in" => { agg with inputPerM := some row.basePrice }
    | "token_out" => { agg with outputPerM := some row.basePrice }
    | "token_cache_read" => { agg with cacheReadPerM := some row.basePrice }
    | "token_cache_write" => { agg with cacheWritePerM := some row.basePrice }
    | "image" => { agg with image := agg.image ++ [mediaExportValue row] }
    | "video_second" => { agg with video := agg.video ++ [mediaExportValue row] }
    | _ => agg
  if row.unit ∈ ["token_in", "token_out", "token_cache_read", "token_cache_write"] then
    { agg with segments := Map.insertOpt agg.segments row.unit row.segments }
  else agg

/-- The groups of rows, in the order in which they come up. -/
def aggregateRow (names : U → Option String)
    (groups : List ((U × String × String) × ItemAgg D)) (row : PriceRuleRow U D) :
    List ((U × String × String) × ItemAgg D) :=
  let key := (row.upstreamId, row.modelId, row.currency)
  if key ∈ groups.map Prod.fst then
    groups.map fun group ↦ if group.1 = key then (group.1, group.2.addRow row) else group
  else
    let agg := { modelId := row.modelId, upstream := (names row.upstreamId).getD ""
                 currency := row.currency }
    groups ++ [(key, ItemAgg.addRow agg row)]

def ItemAgg.item (agg : ItemAgg D) : PriceExportItem D where
  modelId := agg.modelId
  upstream := agg.upstream
  currency := agg.currency
  inputPerM := agg.inputPerM
  outputPerM := agg.outputPerM
  cacheReadPerM := agg.cacheReadPerM
  cacheWritePerM := agg.cacheWritePerM
  segments := if agg.segments = [] then none else some (.obj agg.segments)
  image := if agg.image = [] then none else some (.arr agg.image)
  video := if agg.video = [] then none else some (.arr agg.video)

/-- The order of the items in a file. -/
def itemLe (a b : PriceExportItem D) : Bool :=
  decide (a.upstream < b.upstream ∨ a.upstream = b.upstream ∧ (a.modelId < b.modelId ∨
    a.modelId = b.modelId ∧ a.currency ≤ b.currency))

/-- The items of the groups, which the map of groups lists in an order of its own. -/
def BuildExportItems (names : U → Option String) (rows : List (PriceRuleRow U D))
    (items : List (PriceExportItem D)) : Prop :=
  ∃ order : List (ItemAgg D), order.Perm ((rows.foldl (aggregateRow names) []).map Prod.snd) ∧
    items = (order.map ItemAgg.item).mergeSort itemLe

end Building

/-! ### Writing -/

/-- `TOKEN_COLS`: the elements of the prices of tokens and the units that they belong to. -/
def tokenCols : List (String × String) :=
  [("input_per_m", "token_in"), ("output_per_m", "token_out"),
    ("cache_read_per_m", "token_cache_read"), ("cache_write_per_m", "token_cache_write")]

def PriceExportItem.column {D : Type} (item : PriceExportItem D) (tag : String) : Option D :=
  match tag with
  | "input_per_m" => item.inputPerM
  | "output_per_m" => item.outputPerM
  | "cache_read_per_m" => item.cacheReadPerM
  | _ => item.cacheWritePerM

def PriceExportItem.setColumn {D : Type} (item : PriceExportItem D) (tag : String)
    (price : Option D) : PriceExportItem D :=
  match tag with
  | "input_per_m" => { item with inputPerM := price }
  | "output_per_m" => { item with outputPerM := price }
  | "cache_read_per_m" => { item with cacheReadPerM := price }
  | _ => { item with cacheWritePerM := price }

/-- `replace` of one character. -/
def replaceChar (c : Char) (text : String) (s : List Char) : List Char :=
  s.flatMap fun d ↦ if d = c then text.toList else [d]

def xmlEscape (s : String) : List Char :=
  let s := replaceChar '&' "&amp;" s.toList
  let s := replaceChar '<' "&lt;" s
  let s := replaceChar '>' "&gt;" s
  let s := replaceChar '"' "&quot;" s
  replaceChar '\'' "&apos;" s

/-- A text between the tags of an element. -/
def wrap (tag : String) (inner : List Char) : List Char :=
  '<' :: (tag.toList ++ '>' :: (inner ++ '<' :: '/' :: (tag.toList ++ ['>'])))

/-- What is written for a value that may be missing. -/
def optionXml {α : Type} (write : α → List Char) : Option α → List Char
  | some x => write x
  | none => []

section Writing

variable {D : Type} [Decimals D]

def windowXml (w : String × String) : List Char :=
  "<window start=\"".toList ++ xmlEscape w.1 ++ "\" end=\"".toList ++ xmlEscape w.2 ++ "\"/>".toList

def segmentXml (seg : Segment D) : List Char :=
  wrap "segment" (
    optionXml (fun name ↦ wrap "name" (xmlEscape name)) seg.name ++
    wrap "price" (display seg.price) ++
    optionXml (fun days ↦
      wrap "weekdays" (days.flatMap fun d ↦ wrap "day" (xmlEscape d))) seg.weekdays ++
    optionXml (fun windows ↦ wrap "windows" (windows.flatMap windowXml)) seg.windows ++
    optionXml (fun m : I64 ↦ wrap "min_prompt_tokens" (Compact.printInt m.1))
      seg.minPromptTokens ++
    optionXml (fun m : I64 ↦ wrap "max_prompt_tokens" (Compact.printInt m.1))
      seg.maxPromptTokens)

variable (D) in
def segmentsToXml (segArr : Value) : List Char :=
  let segs : List (Segment D) := (readSegments segArr).getD []
  if segs = [] then [] else wrap "segments" (segs.flatMap segmentXml)

def unitSegments (segments : Option Value) (unit : String) : Option Value :=
  segments.bind fun m ↦ m.get? unit

def tokenColXml (tag unit : String) (price : Option D) (segments : Option Value) : List Char :=
  match price with
  | none => []
  | some p =>
    let segXml := ((unitSegments segments unit).map (segmentsToXml D)).getD []
    if segXml = [] then wrap tag (display p) else wrap tag (wrap "price" (display p) ++ segXml)

variable [SerdeJson]

def jsonValueText : Value → List Char
  | .str s => s.toList
  | other => (SerdeJson.toText other).toList

def dimensionXml (member : String × Value) : List Char :=
  "<dimension name=\"".toList ++ xmlEscape member.1 ++ "\">".toList ++
    xmlEscape (String.ofList (jsonValueText member.2)) ++ "</dimension>".toList

def dimensionsXml (dims : Value) : List Char :=
  match dims.asObject with
  | none => []
  | some obj => if obj = [] then [] else wrap "dimensions" (obj.flatMap dimensionXml)

variable (D) in
/-- One rule of `media_xml`. -/
def mediaItemXml (item : Value) : List Char :=
  wrap "item" (
    optionXml (fun p ↦ wrap "price" (jsonValueText p)) (item.get? "base_price") ++
    optionXml (fun dk ↦ wrap "dimension_key" (xmlEscape dk))
      ((item.get? "dimension_key").bind Value.asStr) ++
    optionXml dimensionsXml (item.get? "dimensions") ++
    optionXml (segmentsToXml D) (item.get? "segments"))

variable (D) in
def mediaXml (tag : String) (rules : Option Value) : List Char :=
  match rules with
  | none => []
  | some rules =>
    let arr := rules.asArray.getD []
    if arr = [] then [] else wrap tag (arr.flatMap (mediaItemXml D))

/-- One item of `export_xml_compact`. -/
def itemXml (item : PriceExportItem D) : List Char :=
  wrap "price" (
    wrap "model_id" (xmlEscape item.modelId) ++
    wrap "upstream" (xmlEscape item.upstream) ++
    wrap "currency" (xmlEscape item.currency) ++
    tokenCols.flatMap (fun col ↦
      tokenColXml col.1 col.2 (item.column col.1) item.segments) ++
    mediaXml D "image" item.image ++
    mediaXml D "video" item.video)

def exportXmlCompact (items : List (PriceExportItem D)) : List Char :=
  "<?xml version=\"1.0\" encoding=\"UTF-8\"?>\n".toList ++
  "<prices schema=\"nextapi-prices/v1\">".toList ++ items.flatMap itemXml ++ "</prices>".toList

end Writing

/-! ### Indenting -/

inductive Tok where
  | decl (raw : List Char)
  | opening (raw : List Char)
  | closing (raw : List Char)
  | empty (raw : List Char)
  | text (raw : List Char)

/-- The token of a part of the file. -/
def Tok.ofMarkup : Markup → Tok
  | .text raw => .text raw
  | .tag raw =>
    if "<?".toList.isPrefixOf raw then .decl raw
    else if "</".toList.isPrefixOf raw then .closing raw
    else if "/>".toList.isSuffixOf raw then .empty raw
    else .opening raw

/-- The lines of the tokens from a depth on: an element with nothing but text is one line. -/
def prettyLines : ℕ → List Tok → List Char
  | _, [] => []
  | depth, .text t :: rest =>
    (if trim t = [] then [] else blanks depth ++ trim t ++ ['\n']) ++ prettyLines depth rest
  | depth, .decl raw :: rest => blanks depth ++ raw ++ ['\n'] ++ prettyLines depth rest
  | depth, .empty raw :: rest => blanks depth ++ raw ++ ['\n'] ++ prettyLines depth rest
  | depth, .opening raw :: .text t :: .closing close :: rest =>
    blanks depth ++ raw ++ trim t ++ close ++ ['\n'] ++ prettyLines depth rest
  | depth, .opening raw :: rest => blanks depth ++ raw ++ ['\n'] ++ prettyLines (depth + 1) rest
  | depth, .closing raw :: rest =>
    blanks (depth - 1) ++ raw ++ ['\n'] ++ prettyLines (depth - 1) rest

def prettyXml (xml : List Char) : List Char := prettyLines 0 ((split xml).map Tok.ofMarkup)

def exportXml {D : Type} [Decimals D] [SerdeJson] (items : List (PriceExportItem D)) : List Char :=
  prettyXml (exportXmlCompact items)

/-! ### Trees -/

/-- An element of a file. -/
structure XNode where
  name : String
  attrs : List (String × String)
  children : List XNode
  text : List Char

/-- Adds an attribute to a map of attributes. -/
def insertAttr (attrs : List (String × String)) (key value : String) : List (String × String) :=
  (key, value) :: attrs.filter fun attr ↦ decide (attr.1 ≠ key)

def readAttrs (attrs : List (Except String (String × Except String String))) :
    Except ApiError (List (String × String)) :=
  attrs.foldlM (fun map attr ↦
    match attr with
    | .error err => .error (.badRequest ("XML 属性解析失败: " ++ err))
    | .ok (_, .error err) => .error (.badRequest ("XML 属性值解码失败: " ++ err))
    | .ok (key, .ok value) => .ok (insertAttr map key value)) []

/-- A name after its colon, if it has one. -/
def localName (name : String) : String :=
  match name.toList.dropWhile (· ≠ ':') with
  | [] => name
  | _ :: rest => String.ofList rest

/-- The elements that are open, the innermost first, and the root. -/
structure Reading where
  stack : List XNode := []
  root : Option XNode := none

def Reading.pushChild (r : Reading) (node : XNode) : Reading :=
  match r.stack with
  | top :: rest => { r with stack := { top with children := top.children ++ [node] } :: rest }
  | [] => { r with root := some node }

def Reading.pushText (r : Reading) (t : List Char) : Reading :=
  match r.stack with
  | top :: rest => { r with stack := { top with text := top.text ++ t } :: rest }
  | [] => r

def readEvent (r : Reading) : Event → Except ApiError Reading
  | .start name attrs =>
    (readAttrs attrs).map fun attrs ↦ { r with stack := ⟨localName name, attrs, [], []⟩ :: r.stack }
  | .empty name attrs =>
    (readAttrs attrs).map fun attrs ↦ r.pushChild ⟨localName name, attrs, [], []⟩
  | .text (.error err) => .error (.badRequest ("XML 文本解码失败: " ++ err))
  | .text (.ok t) => .ok (r.pushText t.toList)
  | .reference _ (.error err) => .error (.badRequest ("XML 字符引用解析失败: " ++ err))
  | .reference _ (.ok (some ch)) => .ok (r.pushText [ch])
  | .reference name (.ok none) =>
    match predefinedEntity name with
    | some ch => .ok (r.pushText [ch])
    | none => .error (.badRequest ("XML 未知实体引用: &" ++ name ++ ";"))
  | .stop _ =>
    match r.stack with
    | node :: rest => .ok ({ r with stack := rest }.pushChild node)
    | [] => .ok r
  | .other => .ok r

def parseTree [XmlReader] (xml : List Char) : Except ApiError XNode :=
  (((XmlReader.read xml).1).foldlM readEvent {}).bind fun r ↦
    match (XmlReader.read xml).2 with
    | some err => .error (.badRequest ("XML 解析失败: " ++ err))
    | none =>
      match r.root with
      | some root => .ok root
      | none => .error (.badRequest "XML 内容为空")

/-! ### Reading the items -/

def child (node : XNode) (name : String) : Option XNode :=
  node.children.find? fun c ↦ decide (c.name = name)

/-- The children with this name. -/
def childrenNamed (node : XNode) (name : String) : List XNode :=
  node.children.filter fun c ↦ decide (c.name = name)

/-- The text of the first child with this name. -/
def textOf (node : XNode) (name : String) : Option (List Char) :=
  (child node name).map fun c ↦ trim c.text

def attr (node : XNode) (name : String) : Option String :=
  (node.attrs.find? fun a ↦ decide (a.1 = name)).map Prod.snd

section Parsing

variable {D : Type} [Decimals D]

def parseSegment (node : XNode) : Segment D where
  name := ((textOf node "name").filter fun s ↦ decide (s ≠ [])).map String.ofList
  price := ((textOf node "price").bind parse).getD zero
  weekdays := (child node "weekdays").map fun w ↦
    (childrenNamed w "day").map fun d ↦ String.ofList (trim d.text)
  windows := (child node "windows").map fun w ↦
    (childrenNamed w "window").map fun x ↦ ((attr x "start").getD "", (attr x "end").getD "")
  minPromptTokens := (textOf node "min_prompt_tokens").bind parseI64
  maxPromptTokens := (textOf node "max_prompt_tokens").bind parseI64

variable (D) in
/-- The value of the segments that `parse_segments` gives. -/
def parseSegments (node : XNode) : Value :=
  .arr ((childrenNamed node "segment").map fun seg ↦ segmentValue (parseSegment seg : Segment D))

def parseDimensions (node : XNode) : Value :=
  .obj ((childrenNamed node "dimension").foldl (fun m d ↦
    match attr d "name" with
    | some name => Map.insert m name (.str (String.ofList (trim d.text)))
    | none => m) [])

def parseTokenCol (node : XNode) : Option D × Option Value :=
  (((child node "price").bind fun p ↦ parse (trim p.text)).or (parse (trim node.text)),
    (child node "segments").map (parseSegments D))

variable (D) in
/-- One rule of `parse_media`. -/
def parseMediaItem (item : XNode) : Value :=
  let m := Map.insertOpt [] "base_price"
    ((child item "price").bind fun p ↦ (parse (trim p.text) : Option D).map decimalValue)
  let m := Map.insertOpt m "dimension_key"
    ((child item "dimension_key").map fun dk ↦ .str (String.ofList (trim dk.text)))
  let m := Map.insertOpt m "dimensions" ((child item "dimensions").map parseDimensions)
  .obj (Map.insertOpt m "segments" ((child item "segments").map (parseSegments D)))

variable (D) in
def parseMedia (node : XNode) : Value :=
  .arr ((childrenNamed node "item").map (parseMediaItem D))

/-- The price and the segments of a column, put into the item and the map of segments. -/
def readColumn (price : XNode) (acc : PriceExportItem D × Map) (col : String × String) :
    PriceExportItem D × Map :=
  match child price col.1 with
  | none => acc
  | some node =>
    let (priceVal, segments) : Option D × Option Value := parseTokenCol node
    (acc.1.setColumn col.1 priceVal,
      Map.insertOpt acc.2 col.2 (segments.filter fun seg ↦ decide (seg.asArray.getD [] ≠ [])))

variable (D) in
/-- The rules of a medium, if there are any. -/
def readMedia (price : XNode) (tag : String) : Option Value :=
  ((child price tag).map (parseMedia D)).filter fun v ↦ decide (v.asArray.getD [] ≠ [])

/-- One element of `parse_xml`. -/
def parseItem (price : XNode) : PriceExportItem D :=
  let text := fun name ↦ String.ofList ((textOf price name).getD [])
  let item : PriceExportItem D :=
    { modelId := text "model_id", upstream := text "upstream", currency := text "currency" }
  let (item, segMap) := tokenCols.foldl (readColumn price) (item, [])
  { item with
    segments := if segMap = [] then none else some (.obj segMap)
    image := readMedia D price "image"
    video := readMedia D price "video" }

/-- `parse_xml` after the tree is read. -/
def parseRoot (root : XNode) : Except ApiError (List (PriceExportItem D)) :=
  if root.name ≠ "prices" then .error (.badRequest "XML 根元素应为 <prices>")
  else .ok ((childrenNamed root "price").map parseItem)

def parseXml [XmlReader] (xml : List Char) : Except ApiError (List (PriceExportItem D)) :=
  (parseTree xml).bind parseRoot

end Parsing

end NextApi.Transfer
