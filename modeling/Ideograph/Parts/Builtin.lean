import Ideograph.Parts

/-! # Built-in parts

The narrow side forms, the full characters that shrink as components, strokes and roofs; and the
outlines of parts that change their shape in a position, drawn in a square of side 72.
-/

namespace Ideograph.Parts

def smallParts : List Char :=
  ['亻', '彳', '氵', '冫', '扌', '忄', '讠', '纟', '钅', '饣', '礻', '衤', '犭', '阝', '卩', '刂',
    '丬', '牜', '飠', '釒', '糹', '訁', '口', '日', '目', '月', '王', '木', '禾', '米', '火', '石',
    '女', '子', '山', '土', '马', '贝', '车', '足', '舟', '耳', '虫', '歹', '牛', '片', '方', '矢',
    '弓', '巾', '工', '夕', '白', '田', '立', '几', '又', '寸', '厶', '匕', '卜', '人', '八', '儿',
    '小', '大', '金', '言', '食', '糸', '馬', '貝', '車', '魚', '鱼', '鸟', '鳥', '革', '骨', '丶',
    '丿', '乚', '丨', '亠', '冖', '宀', '艹', '⺮', '罒', '爫', '彡', '攵', '丷', '⺌', '龷']

/-- Parts that keep two thirds of the box; all of them are small. -/
def unshrinkParts : List Char :=
  ['木', '禾', '米', '火', '石', '女', '月', '车', '马', '贝', '舟', '耳', '虫', '牛', '矢', '足',
    '歹', '金', '言', '食', '糸', '馬', '貝', '車', '魚', '鱼', '鸟', '鳥', '革', '骨']

/-- 光 on the left: the last stroke is a short lift. -/
def lightOnTheLeft : String :=
  "M33 6L39 6L39 30L33 30Z" ++
    "M14 12L20 10L27 26L22 28Z" ++
    "M58 10L63 13L52 28L47 26Z" ++
    "M4 32L68 32L68 37L4 37Z" ++
    "M24 37L30 37L26 52Q20 62 6 68L4 65Q16 58 22 48Z" ++
    "M42 37L48 37L48 56Q48 60 53 60L66 58L67 63L50 66Q42 66 42 58Z"

/-- 雨 on top: a flat frame with its dots pulled in. -/
def rainOnTop : String :=
  "M8 6L64 6L64 11L8 11Z" ++
    "M33 11L39 11L39 66L33 66Z" ++
    "M8 22L64 22L64 27L8 27Z" ++
    "M8 27L14 27L14 66L8 66Z" ++
    "M58 27L64 27L64 60Q64 66 58 66L52 66L52 61L58 61Z" ++
    "M20 34L26 34L26 39L20 39Z" ++
    "M20 48L26 48L26 53L20 53Z" ++
    "M46 34L52 34L52 39L46 39Z" ++
    "M46 48L52 48L52 53L46 53Z"

def builtin : Parts where
  small := smallParts
  unshrink := unshrinkParts
  variants := [((.left, '光'), lightOnTheLeft), ((.up, '雨'), rainOnTop)]

end Ideograph.Parts
