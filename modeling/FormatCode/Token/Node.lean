import FormatCode.Token.Basic

/-!
# Tokens as nodes

Each token is a node whose fields hold what the token holds.

## Main definitions

* `Token.toValue` — the node of a token.
-/

namespace FormatCode

def Value.textOrNull (s : Option String) : Value := s.elim .null .text

namespace Token

def toValue : Token → Value
  | bare => .node .token []
  | sectionSeparator => .node .sectionSeparator []
  | decimalPoint => .node .decimalPoint []
  | thousandSep => .node .thousandSep []
  | percentMark => .node .percentMark []
  | textPlaceholder => .node .textPlaceholder []
  | placeholder mark => .node .placeholder [.text mark]
  | literal text => .node .literal [.text text]
  | escape text => .node .escape [.text text]
  | fill text => .node .fill [.text text]
  | space text => .node .space [.text text]
  | color name => .node .color [.textOrNull name]
  | condition operator threshold => .node .conditionToken [.text operator, threshold]
  | quoted text => .node .quoted [.text text]
  | locale raw => .node .locale [.text raw]
  | scientific sign => .node .scientific [.textOrNull sign]
  | date pattern => .node .dateToken [.text pattern]

end Token

end FormatCode
