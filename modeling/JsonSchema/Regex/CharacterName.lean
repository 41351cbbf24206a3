/-!
# Names of characters

The table holds the characters that have a name in common use: those of ASCII, Latin, Greek,
Cyrillic, Hebrew and the Japanese syllabaries, digits, punctuation, arrows, signs and faces.
-/

namespace JsonSchema.Regex

/-- Characters with consecutive code points, from `first` on. -/
structure NamedRun where
  first : Nat
  names : List String

/-- Second names of characters, and the names of characters that have no first one. -/
def secondNames : List (String × Nat) :=
  [("NULL", 0), ("START OF HEADING", 1), ("START OF TEXT", 2), ("END OF TEXT", 3),
   ("END OF TRANSMISSION", 4), ("ENQUIRY", 5), ("ACKNOWLEDGE", 6), ("ALERT", 7), ("BEL", 7),
   ("BACKSPACE", 8), ("CHARACTER TABULATION", 9), ("HORIZONTAL TABULATION", 9), ("TAB", 9),
   ("HT", 9), ("LINE FEED", 10), ("NEW LINE", 10), ("END OF LINE", 10), ("LF", 10), ("NL", 10),
   ("EOL", 10), ("LINE TABULATION", 11), ("VERTICAL TABULATION", 11), ("VT", 11),
   ("FORM FEED", 12), ("FF", 12), ("CARRIAGE RETURN", 13), ("CR", 13), ("ESCAPE", 27),
   ("ESC", 27), ("SPACE", 32), ("SP", 32), ("DELETE", 127), ("DEL", 127), ("NEXT LINE", 133),
   ("NEL", 133), ("NBSP", 160), ("SOFT HYPHEN", 173), ("SHY", 173), ("ZWSP", 8203),
   ("ZWNJ", 8204), ("ZWJ", 8205), ("LRM", 8206), ("RLM", 8207), ("WORD JOINER", 8288),
   ("WJ", 8288), ("BOM", 65279), ("BYTE ORDER MARK", 65279), ("ZWNBSP", 65279)]

/-- The names of characters, by runs. -/
def namedRuns : List NamedRun :=
  [⟨32, ["SPACE", "EXCLAMATION MARK", "QUOTATION MARK", "NUMBER SIGN", "DOLLAR SIGN",
      "PERCENT SIGN", "AMPERSAND", "APOSTROPHE", "LEFT PARENTHESIS", "RIGHT PARENTHESIS",
      "ASTERISK", "PLUS SIGN", "COMMA", "HYPHEN-MINUS", "FULL STOP", "SOLIDUS", "DIGIT ZERO",
      "DIGIT ONE", "DIGIT TWO", "DIGIT THREE", "DIGIT FOUR", "DIGIT FIVE", "DIGIT SIX",
      "DIGIT SEVEN", "DIGIT EIGHT", "DIGIT NINE", "COLON", "SEMICOLON", "LESS-THAN SIGN",
      "EQUALS SIGN", "GREATER-THAN SIGN", "QUESTION MARK", "COMMERCIAL AT",
      "LATIN CAPITAL LETTER A", "LATIN CAPITAL LETTER B", "LATIN CAPITAL LETTER C",
      "LATIN CAPITAL LETTER D", "LATIN CAPITAL LETTER E", "LATIN CAPITAL LETTER F",
      "LATIN CAPITAL LETTER G", "LATIN CAPITAL LETTER H", "LATIN CAPITAL LETTER I",
      "LATIN CAPITAL LETTER J", "LATIN CAPITAL LETTER K", "LATIN CAPITAL LETTER L",
      "LATIN CAPITAL LETTER M", "LATIN CAPITAL LETTER N", "LATIN CAPITAL LETTER O",
      "LATIN CAPITAL LETTER P", "LATIN CAPITAL LETTER Q", "LATIN CAPITAL LETTER R",
      "LATIN CAPITAL LETTER S", "LATIN CAPITAL LETTER T", "LATIN CAPITAL LETTER U",
      "LATIN CAPITAL LETTER V", "LATIN CAPITAL LETTER W", "LATIN CAPITAL LETTER X",
      "LATIN CAPITAL LETTER Y", "LATIN CAPITAL LETTER Z", "LEFT SQUARE BRACKET",
      "REVERSE SOLIDUS", "RIGHT SQUARE BRACKET", "CIRCUMFLEX ACCENT", "LOW LINE", "GRAVE ACCENT",
      "LATIN SMALL LETTER A", "LATIN SMALL LETTER B", "LATIN SMALL LETTER C",
      "LATIN SMALL LETTER D", "LATIN SMALL LETTER E", "LATIN SMALL LETTER F",
      "LATIN SMALL LETTER G", "LATIN SMALL LETTER H", "LATIN SMALL LETTER I",
      "LATIN SMALL LETTER J", "LATIN SMALL LETTER K", "LATIN SMALL LETTER L",
      "LATIN SMALL LETTER M", "LATIN SMALL LETTER N", "LATIN SMALL LETTER O",
      "LATIN SMALL LETTER P", "LATIN SMALL LETTER Q", "LATIN SMALL LETTER R",
      "LATIN SMALL LETTER S", "LATIN SMALL LETTER T", "LATIN SMALL LETTER U",
      "LATIN SMALL LETTER V", "LATIN SMALL LETTER W", "LATIN SMALL LETTER X",
      "LATIN SMALL LETTER Y", "LATIN SMALL LETTER Z", "LEFT CURLY BRACKET", "VERTICAL LINE",
      "RIGHT CURLY BRACKET", "TILDE"]⟩,
   ⟨160, ["NO-BREAK SPACE", "INVERTED EXCLAMATION MARK", "CENT SIGN", "POUND SIGN",
      "CURRENCY SIGN", "YEN SIGN", "BROKEN BAR", "SECTION SIGN", "DIAERESIS"]⟩,
   ⟨170, ["FEMININE ORDINAL INDICATOR", "LEFT-POINTING DOUBLE ANGLE QUOTATION MARK", "NOT SIGN",
      "SOFT HYPHEN", "REGISTERED SIGN", "MACRON", "DEGREE SIGN", "PLUS-MINUS SIGN",
      "SUPERSCRIPT TWO", "SUPERSCRIPT THREE", "ACUTE ACCENT", "MICRO SIGN", "PILCROW SIGN",
      "MIDDLE DOT", "CEDILLA", "SUPERSCRIPT ONE", "MASCULINE ORDINAL INDICATOR",
      "RIGHT-POINTING DOUBLE ANGLE QUOTATION MARK", "VULGAR FRACTION ONE QUARTER",
      "VULGAR FRACTION ONE HALF", "VULGAR FRACTION THREE QUARTERS", "INVERTED QUESTION MARK",
      "LATIN CAPITAL LETTER A WITH GRAVE", "LATIN CAPITAL LETTER A WITH ACUTE",
      "LATIN CAPITAL LETTER A WITH CIRCUMFLEX", "LATIN CAPITAL LETTER A WITH TILDE",
      "LATIN CAPITAL LETTER A WITH DIAERESIS", "LATIN CAPITAL LETTER A WITH RING ABOVE",
      "LATIN CAPITAL LETTER AE", "LATIN CAPITAL LETTER C WITH CEDILLA",
      "LATIN CAPITAL LETTER E WITH GRAVE", "LATIN CAPITAL LETTER E WITH ACUTE",
      "LATIN CAPITAL LETTER E WITH CIRCUMFLEX", "LATIN CAPITAL LETTER E WITH DIAERESIS",
      "LATIN CAPITAL LETTER I WITH GRAVE", "LATIN CAPITAL LETTER I WITH ACUTE",
      "LATIN CAPITAL LETTER I WITH CIRCUMFLEX", "LATIN CAPITAL LETTER I WITH DIAERESIS",
      "LATIN CAPITAL LETTER ETH", "LATIN CAPITAL LETTER N WITH TILDE",
      "LATIN CAPITAL LETTER O WITH GRAVE", "LATIN CAPITAL LETTER O WITH ACUTE",
      "LATIN CAPITAL LETTER O WITH CIRCUMFLEX", "LATIN CAPITAL LETTER O WITH TILDE",
      "LATIN CAPITAL LETTER O WITH DIAERESIS", "MULTIPLICATION SIGN",
      "LATIN CAPITAL LETTER O WITH STROKE", "LATIN CAPITAL LETTER U WITH GRAVE",
      "LATIN CAPITAL LETTER U WITH ACUTE", "LATIN CAPITAL LETTER U WITH CIRCUMFLEX",
      "LATIN CAPITAL LETTER U WITH DIAERESIS", "LATIN CAPITAL LETTER Y WITH ACUTE",
      "LATIN CAPITAL LETTER THORN", "LATIN SMALL LETTER SHARP S",
      "LATIN SMALL LETTER A WITH GRAVE", "LATIN SMALL LETTER A WITH ACUTE",
      "LATIN SMALL LETTER A WITH CIRCUMFLEX", "LATIN SMALL LETTER A WITH TILDE",
      "LATIN SMALL LETTER A WITH DIAERESIS", "LATIN SMALL LETTER A WITH RING ABOVE",
      "LATIN SMALL LETTER AE", "LATIN SMALL LETTER C WITH CEDILLA",
      "LATIN SMALL LETTER E WITH GRAVE", "LATIN SMALL LETTER E WITH ACUTE",
      "LATIN SMALL LETTER E WITH CIRCUMFLEX", "LATIN SMALL LETTER E WITH DIAERESIS",
      "LATIN SMALL LETTER I WITH GRAVE", "LATIN SMALL LETTER I WITH ACUTE",
      "LATIN SMALL LETTER I WITH CIRCUMFLEX", "LATIN SMALL LETTER I WITH DIAERESIS",
      "LATIN SMALL LETTER ETH", "LATIN SMALL LETTER N WITH TILDE",
      "LATIN SMALL LETTER O WITH GRAVE", "LATIN SMALL LETTER O WITH ACUTE",
      "LATIN SMALL LETTER O WITH CIRCUMFLEX", "LATIN SMALL LETTER O WITH TILDE",
      "LATIN SMALL LETTER O WITH DIAERESIS", "DIVISION SIGN", "LATIN SMALL LETTER O WITH STROKE",
      "LATIN SMALL LETTER U WITH GRAVE", "LATIN SMALL LETTER U WITH ACUTE",
      "LATIN SMALL LETTER U WITH CIRCUMFLEX", "LATIN SMALL LETTER U WITH DIAERESIS",
      "LATIN SMALL LETTER Y WITH ACUTE", "LATIN SMALL LETTER THORN",
      "LATIN SMALL LETTER Y WITH DIAERESIS", "LATIN CAPITAL LETTER A WITH MACRON",
      "LATIN SMALL LETTER A WITH MACRON", "LATIN CAPITAL LETTER A WITH BREVE",
      "LATIN SMALL LETTER A WITH BREVE", "LATIN CAPITAL LETTER A WITH OGONEK",
      "LATIN SMALL LETTER A WITH OGONEK", "LATIN CAPITAL LETTER C WITH ACUTE",
      "LATIN SMALL LETTER C WITH ACUTE", "LATIN CAPITAL LETTER C WITH CIRCUMFLEX",
      "LATIN SMALL LETTER C WITH CIRCUMFLEX", "LATIN CAPITAL LETTER C WITH DOT ABOVE",
      "LATIN SMALL LETTER C WITH DOT ABOVE", "LATIN CAPITAL LETTER C WITH CARON",
      "LATIN SMALL LETTER C WITH CARON", "LATIN CAPITAL LETTER D WITH CARON",
      "LATIN SMALL LETTER D WITH CARON", "LATIN CAPITAL LETTER D WITH STROKE",
      "LATIN SMALL LETTER D WITH STROKE", "LATIN CAPITAL LETTER E WITH MACRON",
      "LATIN SMALL LETTER E WITH MACRON", "LATIN CAPITAL LETTER E WITH BREVE",
      "LATIN SMALL LETTER E WITH BREVE", "LATIN CAPITAL LETTER E WITH DOT ABOVE",
      "LATIN SMALL LETTER E WITH DOT ABOVE", "LATIN CAPITAL LETTER E WITH OGONEK",
      "LATIN SMALL LETTER E WITH OGONEK", "LATIN CAPITAL LETTER E WITH CARON",
      "LATIN SMALL LETTER E WITH CARON", "LATIN CAPITAL LETTER G WITH CIRCUMFLEX",
      "LATIN SMALL LETTER G WITH CIRCUMFLEX", "LATIN CAPITAL LETTER G WITH BREVE",
      "LATIN SMALL LETTER G WITH BREVE", "LATIN CAPITAL LETTER G WITH DOT ABOVE",
      "LATIN SMALL LETTER G WITH DOT ABOVE", "LATIN CAPITAL LETTER G WITH CEDILLA",
      "LATIN SMALL LETTER G WITH CEDILLA", "LATIN CAPITAL LETTER H WITH CIRCUMFLEX",
      "LATIN SMALL LETTER H WITH CIRCUMFLEX", "LATIN CAPITAL LETTER H WITH STROKE",
      "LATIN SMALL LETTER H WITH STROKE", "LATIN CAPITAL LETTER I WITH TILDE",
      "LATIN SMALL LETTER I WITH TILDE", "LATIN CAPITAL LETTER I WITH MACRON",
      "LATIN SMALL LETTER I WITH MACRON", "LATIN CAPITAL LETTER I WITH BREVE",
      "LATIN SMALL LETTER I WITH BREVE", "LATIN CAPITAL LETTER I WITH OGONEK",
      "LATIN SMALL LETTER I WITH OGONEK", "LATIN CAPITAL LETTER I WITH DOT ABOVE",
      "LATIN SMALL LETTER DOTLESS I", "LATIN CAPITAL LIGATURE IJ", "LATIN SMALL LIGATURE IJ",
      "LATIN CAPITAL LETTER J WITH CIRCUMFLEX", "LATIN SMALL LETTER J WITH CIRCUMFLEX",
      "LATIN CAPITAL LETTER K WITH CEDILLA", "LATIN SMALL LETTER K WITH CEDILLA",
      "LATIN SMALL LETTER KRA", "LATIN CAPITAL LETTER L WITH ACUTE",
      "LATIN SMALL LETTER L WITH ACUTE", "LATIN CAPITAL LETTER L WITH CEDILLA",
      "LATIN SMALL LETTER L WITH CEDILLA", "LATIN CAPITAL LETTER L WITH CARON",
      "LATIN SMALL LETTER L WITH CARON", "LATIN CAPITAL LETTER L WITH MIDDLE DOT",
      "LATIN SMALL LETTER L WITH MIDDLE DOT", "LATIN CAPITAL LETTER L WITH STROKE",
      "LATIN SMALL LETTER L WITH STROKE", "LATIN CAPITAL LETTER N WITH ACUTE",
      "LATIN SMALL LETTER N WITH ACUTE", "LATIN CAPITAL LETTER N WITH CEDILLA",
      "LATIN SMALL LETTER N WITH CEDILLA", "LATIN CAPITAL LETTER N WITH CARON",
      "LATIN SMALL LETTER N WITH CARON", "LATIN SMALL LETTER N PRECEDED BY APOSTROPHE",
      "LATIN CAPITAL LETTER ENG", "LATIN SMALL LETTER ENG", "LATIN CAPITAL LETTER O WITH MACRON",
      "LATIN SMALL LETTER O WITH MACRON", "LATIN CAPITAL LETTER O WITH BREVE",
      "LATIN SMALL LETTER O WITH BREVE", "LATIN CAPITAL LETTER O WITH DOUBLE ACUTE",
      "LATIN SMALL LETTER O WITH DOUBLE ACUTE", "LATIN CAPITAL LIGATURE OE",
      "LATIN SMALL LIGATURE OE", "LATIN CAPITAL LETTER R WITH ACUTE",
      "LATIN SMALL LETTER R WITH ACUTE", "LATIN CAPITAL LETTER R WITH CEDILLA",
      "LATIN SMALL LETTER R WITH CEDILLA", "LATIN CAPITAL LETTER R WITH CARON",
      "LATIN SMALL LETTER R WITH CARON", "LATIN CAPITAL LETTER S WITH ACUTE",
      "LATIN SMALL LETTER S WITH ACUTE", "LATIN CAPITAL LETTER S WITH CIRCUMFLEX",
      "LATIN SMALL LETTER S WITH CIRCUMFLEX", "LATIN CAPITAL LETTER S WITH CEDILLA",
      "LATIN SMALL LETTER S WITH CEDILLA", "LATIN CAPITAL LETTER S WITH CARON",
      "LATIN SMALL LETTER S WITH CARON", "LATIN CAPITAL LETTER T WITH CEDILLA",
      "LATIN SMALL LETTER T WITH CEDILLA", "LATIN CAPITAL LETTER T WITH CARON",
      "LATIN SMALL LETTER T WITH CARON", "LATIN CAPITAL LETTER T WITH STROKE",
      "LATIN SMALL LETTER T WITH STROKE", "LATIN CAPITAL LETTER U WITH TILDE",
      "LATIN SMALL LETTER U WITH TILDE", "LATIN CAPITAL LETTER U WITH MACRON",
      "LATIN SMALL LETTER U WITH MACRON", "LATIN CAPITAL LETTER U WITH BREVE",
      "LATIN SMALL LETTER U WITH BREVE", "LATIN CAPITAL LETTER U WITH RING ABOVE",
      "LATIN SMALL LETTER U WITH RING ABOVE", "LATIN CAPITAL LETTER U WITH DOUBLE ACUTE",
      "LATIN SMALL LETTER U WITH DOUBLE ACUTE", "LATIN CAPITAL LETTER U WITH OGONEK",
      "LATIN SMALL LETTER U WITH OGONEK", "LATIN CAPITAL LETTER W WITH CIRCUMFLEX",
      "LATIN SMALL LETTER W WITH CIRCUMFLEX", "LATIN CAPITAL LETTER Y WITH CIRCUMFLEX",
      "LATIN SMALL LETTER Y WITH CIRCUMFLEX", "LATIN CAPITAL LETTER Y WITH DIAERESIS",
      "LATIN CAPITAL LETTER Z WITH ACUTE", "LATIN SMALL LETTER Z WITH ACUTE",
      "LATIN CAPITAL LETTER Z WITH DOT ABOVE", "LATIN SMALL LETTER Z WITH DOT ABOVE",
      "LATIN CAPITAL LETTER Z WITH CARON", "LATIN SMALL LETTER Z WITH CARON",
      "LATIN SMALL LETTER LONG S"]⟩,
   ⟨913, ["GREEK CAPITAL LETTER ALPHA", "GREEK CAPITAL LETTER BETA", "GREEK CAPITAL LETTER GAMMA",
      "GREEK CAPITAL LETTER DELTA", "GREEK CAPITAL LETTER EPSILON", "GREEK CAPITAL LETTER ZETA",
      "GREEK CAPITAL LETTER ETA", "GREEK CAPITAL LETTER THETA", "GREEK CAPITAL LETTER IOTA",
      "GREEK CAPITAL LETTER KAPPA", "GREEK CAPITAL LETTER LAMDA", "GREEK CAPITAL LETTER MU",
      "GREEK CAPITAL LETTER NU", "GREEK CAPITAL LETTER XI", "GREEK CAPITAL LETTER OMICRON",
      "GREEK CAPITAL LETTER PI", "GREEK CAPITAL LETTER RHO"]⟩,
   ⟨931, ["GREEK CAPITAL LETTER SIGMA", "GREEK CAPITAL LETTER TAU",
      "GREEK CAPITAL LETTER UPSILON", "GREEK CAPITAL LETTER PHI", "GREEK CAPITAL LETTER CHI",
      "GREEK CAPITAL LETTER PSI", "GREEK CAPITAL LETTER OMEGA"]⟩,
   ⟨945, ["GREEK SMALL LETTER ALPHA", "GREEK SMALL LETTER BETA", "GREEK SMALL LETTER GAMMA",
      "GREEK SMALL LETTER DELTA", "GREEK SMALL LETTER EPSILON", "GREEK SMALL LETTER ZETA",
      "GREEK SMALL LETTER ETA", "GREEK SMALL LETTER THETA", "GREEK SMALL LETTER IOTA",
      "GREEK SMALL LETTER KAPPA", "GREEK SMALL LETTER LAMDA", "GREEK SMALL LETTER MU",
      "GREEK SMALL LETTER NU", "GREEK SMALL LETTER XI", "GREEK SMALL LETTER OMICRON",
      "GREEK SMALL LETTER PI", "GREEK SMALL LETTER RHO", "GREEK SMALL LETTER FINAL SIGMA",
      "GREEK SMALL LETTER SIGMA", "GREEK SMALL LETTER TAU", "GREEK SMALL LETTER UPSILON",
      "GREEK SMALL LETTER PHI", "GREEK SMALL LETTER CHI", "GREEK SMALL LETTER PSI",
      "GREEK SMALL LETTER OMEGA"]⟩,
   ⟨1040, ["CYRILLIC CAPITAL LETTER A", "CYRILLIC CAPITAL LETTER BE",
      "CYRILLIC CAPITAL LETTER VE", "CYRILLIC CAPITAL LETTER GHE", "CYRILLIC CAPITAL LETTER DE",
      "CYRILLIC CAPITAL LETTER IE", "CYRILLIC CAPITAL LETTER ZHE", "CYRILLIC CAPITAL LETTER ZE",
      "CYRILLIC CAPITAL LETTER I", "CYRILLIC CAPITAL LETTER SHORT I",
      "CYRILLIC CAPITAL LETTER KA", "CYRILLIC CAPITAL LETTER EL", "CYRILLIC CAPITAL LETTER EM",
      "CYRILLIC CAPITAL LETTER EN", "CYRILLIC CAPITAL LETTER O", "CYRILLIC CAPITAL LETTER PE",
      "CYRILLIC CAPITAL LETTER ER", "CYRILLIC CAPITAL LETTER ES", "CYRILLIC CAPITAL LETTER TE",
      "CYRILLIC CAPITAL LETTER U", "CYRILLIC CAPITAL LETTER EF", "CYRILLIC CAPITAL LETTER HA",
      "CYRILLIC CAPITAL LETTER TSE", "CYRILLIC CAPITAL LETTER CHE", "CYRILLIC CAPITAL LETTER SHA",
      "CYRILLIC CAPITAL LETTER SHCHA", "CYRILLIC CAPITAL LETTER HARD SIGN",
      "CYRILLIC CAPITAL LETTER YERU", "CYRILLIC CAPITAL LETTER SOFT SIGN",
      "CYRILLIC CAPITAL LETTER E", "CYRILLIC CAPITAL LETTER YU", "CYRILLIC CAPITAL LETTER YA",
      "CYRILLIC SMALL LETTER A", "CYRILLIC SMALL LETTER BE", "CYRILLIC SMALL LETTER VE",
      "CYRILLIC SMALL LETTER GHE", "CYRILLIC SMALL LETTER DE", "CYRILLIC SMALL LETTER IE",
      "CYRILLIC SMALL LETTER ZHE", "CYRILLIC SMALL LETTER ZE", "CYRILLIC SMALL LETTER I",
      "CYRILLIC SMALL LETTER SHORT I", "CYRILLIC SMALL LETTER KA", "CYRILLIC SMALL LETTER EL",
      "CYRILLIC SMALL LETTER EM", "CYRILLIC SMALL LETTER EN", "CYRILLIC SMALL LETTER O",
      "CYRILLIC SMALL LETTER PE", "CYRILLIC SMALL LETTER ER", "CYRILLIC SMALL LETTER ES",
      "CYRILLIC SMALL LETTER TE", "CYRILLIC SMALL LETTER U", "CYRILLIC SMALL LETTER EF",
      "CYRILLIC SMALL LETTER HA", "CYRILLIC SMALL LETTER TSE", "CYRILLIC SMALL LETTER CHE",
      "CYRILLIC SMALL LETTER SHA", "CYRILLIC SMALL LETTER SHCHA",
      "CYRILLIC SMALL LETTER HARD SIGN", "CYRILLIC SMALL LETTER YERU",
      "CYRILLIC SMALL LETTER SOFT SIGN", "CYRILLIC SMALL LETTER E", "CYRILLIC SMALL LETTER YU",
      "CYRILLIC SMALL LETTER YA"]⟩,
   ⟨1488, ["HEBREW LETTER ALEF", "HEBREW LETTER BET", "HEBREW LETTER GIMEL",
      "HEBREW LETTER DALET", "HEBREW LETTER HE", "HEBREW LETTER VAV", "HEBREW LETTER ZAYIN",
      "HEBREW LETTER HET", "HEBREW LETTER TET", "HEBREW LETTER YOD", "HEBREW LETTER FINAL KAF",
      "HEBREW LETTER KAF", "HEBREW LETTER LAMED", "HEBREW LETTER FINAL MEM", "HEBREW LETTER MEM",
      "HEBREW LETTER FINAL NUN", "HEBREW LETTER NUN", "HEBREW LETTER SAMEKH",
      "HEBREW LETTER AYIN", "HEBREW LETTER FINAL PE", "HEBREW LETTER PE",
      "HEBREW LETTER FINAL TSADI", "HEBREW LETTER TSADI", "HEBREW LETTER QOF",
      "HEBREW LETTER RESH", "HEBREW LETTER SHIN", "HEBREW LETTER TAV"]⟩,
   ⟨8192, ["EN QUAD", "EM QUAD", "EN SPACE", "EM SPACE", "THREE-PER-EM SPACE",
      "FOUR-PER-EM SPACE", "SIX-PER-EM SPACE", "FIGURE SPACE", "PUNCTUATION SPACE", "THIN SPACE",
      "HAIR SPACE", "ZERO WIDTH SPACE", "ZERO WIDTH NON-JOINER", "ZERO WIDTH JOINER",
      "LEFT-TO-RIGHT MARK", "RIGHT-TO-LEFT MARK"]⟩,
   ⟨8208, ["HYPHEN", "NON-BREAKING HYPHEN", "FIGURE DASH", "EN DASH", "EM DASH", "HORIZONTAL BAR"]⟩,
   ⟨8216, ["LEFT SINGLE QUOTATION MARK", "RIGHT SINGLE QUOTATION MARK",
      "SINGLE LOW-9 QUOTATION MARK", "SINGLE HIGH-REVERSED-9 QUOTATION MARK",
      "LEFT DOUBLE QUOTATION MARK", "RIGHT DOUBLE QUOTATION MARK", "DOUBLE LOW-9 QUOTATION MARK",
      "DOUBLE HIGH-REVERSED-9 QUOTATION MARK", "DAGGER", "DOUBLE DAGGER", "BULLET"]⟩,
   ⟨8228, ["ONE DOT LEADER", "TWO DOT LEADER", "HORIZONTAL ELLIPSIS", "HYPHENATION POINT",
      "LINE SEPARATOR", "PARAGRAPH SEPARATOR"]⟩,
   ⟨8239, ["NARROW NO-BREAK SPACE", "PER MILLE SIGN", "PER TEN THOUSAND SIGN", "PRIME",
      "DOUBLE PRIME", "TRIPLE PRIME", "REVERSED PRIME", "REVERSED DOUBLE PRIME",
      "REVERSED TRIPLE PRIME", "CARET", "SINGLE LEFT-POINTING ANGLE QUOTATION MARK",
      "SINGLE RIGHT-POINTING ANGLE QUOTATION MARK"]⟩,
   ⟨8352, ["EURO-CURRENCY SIGN", "COLON SIGN", "CRUZEIRO SIGN", "FRENCH FRANC SIGN", "LIRA SIGN"]⟩,
   ⟨8361, ["WON SIGN", "NEW SHEQEL SIGN", "DONG SIGN", "EURO SIGN"]⟩,
   ⟨8448, ["ACCOUNT OF", "ADDRESSED TO THE SUBJECT", "DOUBLE-STRUCK CAPITAL C", "DEGREE CELSIUS"]⟩,
   ⟨8482, ["TRADE MARK SIGN"]⟩,
   ⟨8486, ["OHM SIGN", "INVERTED OHM SIGN", "BLACK-LETTER CAPITAL Z",
      "TURNED GREEK SMALL LETTER IOTA", "KELVIN SIGN", "ANGSTROM SIGN"]⟩,
   ⟨8528, ["VULGAR FRACTION ONE SEVENTH", "VULGAR FRACTION ONE NINTH",
      "VULGAR FRACTION ONE TENTH", "VULGAR FRACTION ONE THIRD", "VULGAR FRACTION TWO THIRDS",
      "VULGAR FRACTION ONE FIFTH", "VULGAR FRACTION TWO FIFTHS", "VULGAR FRACTION THREE FIFTHS",
      "VULGAR FRACTION FOUR FIFTHS", "VULGAR FRACTION ONE SIXTH", "VULGAR FRACTION FIVE SIXTHS",
      "VULGAR FRACTION ONE EIGHTH", "VULGAR FRACTION THREE EIGHTHS",
      "VULGAR FRACTION FIVE EIGHTHS", "VULGAR FRACTION SEVEN EIGHTHS"]⟩,
   ⟨8592, ["LEFTWARDS ARROW", "UPWARDS ARROW", "RIGHTWARDS ARROW", "DOWNWARDS ARROW",
      "LEFT RIGHT ARROW", "UP DOWN ARROW", "NORTH WEST ARROW", "NORTH EAST ARROW",
      "SOUTH EAST ARROW", "SOUTH WEST ARROW"]⟩,
   ⟨8704, ["FOR ALL", "COMPLEMENT", "PARTIAL DIFFERENTIAL", "THERE EXISTS",
      "THERE DOES NOT EXIST", "EMPTY SET", "INCREMENT", "NABLA", "ELEMENT OF",
      "NOT AN ELEMENT OF", "SMALL ELEMENT OF", "CONTAINS AS MEMBER", "DOES NOT CONTAIN AS MEMBER",
      "SMALL CONTAINS AS MEMBER", "END OF PROOF", "N-ARY PRODUCT", "N-ARY COPRODUCT",
      "N-ARY SUMMATION", "MINUS SIGN", "MINUS-OR-PLUS SIGN", "DOT PLUS", "DIVISION SLASH",
      "SET MINUS", "ASTERISK OPERATOR", "RING OPERATOR", "BULLET OPERATOR", "SQUARE ROOT",
      "CUBE ROOT", "FOURTH ROOT", "PROPORTIONAL TO", "INFINITY"]⟩,
   ⟨8800, ["NOT EQUAL TO", "IDENTICAL TO", "NOT IDENTICAL TO", "STRICTLY EQUIVALENT TO",
      "LESS-THAN OR EQUAL TO", "GREATER-THAN OR EQUAL TO"]⟩,
   ⟨9312, ["CIRCLED DIGIT ONE", "CIRCLED DIGIT TWO", "CIRCLED DIGIT THREE", "CIRCLED DIGIT FOUR",
      "CIRCLED DIGIT FIVE", "CIRCLED DIGIT SIX", "CIRCLED DIGIT SEVEN", "CIRCLED DIGIT EIGHT",
      "CIRCLED DIGIT NINE"]⟩,
   ⟨9472, ["BOX DRAWINGS LIGHT HORIZONTAL", "BOX DRAWINGS HEAVY HORIZONTAL",
      "BOX DRAWINGS LIGHT VERTICAL", "BOX DRAWINGS HEAVY VERTICAL"]⟩,
   ⟨9632, ["BLACK SQUARE", "WHITE SQUARE"]⟩,
   ⟨9679, ["BLACK CIRCLE"]⟩,
   ⟨9728, ["BLACK SUN WITH RAYS", "CLOUD", "UMBRELLA", "SNOWMAN", "COMET", "BLACK STAR",
      "WHITE STAR"]⟩,
   ⟨9744, ["BALLOT BOX", "BALLOT BOX WITH CHECK", "BALLOT BOX WITH X"]⟩,
   ⟨9824, ["BLACK SPADE SUIT", "WHITE HEART SUIT", "WHITE DIAMOND SUIT", "BLACK CLUB SUIT",
      "WHITE SPADE SUIT", "BLACK HEART SUIT", "BLACK DIAMOND SUIT", "WHITE CLUB SUIT"]⟩,
   ⟨10003, ["CHECK MARK", "HEAVY CHECK MARK", "MULTIPLICATION X", "HEAVY MULTIPLICATION X",
      "BALLOT X", "HEAVY BALLOT X"]⟩,
   ⟨10084, ["HEAVY BLACK HEART"]⟩,
   ⟨12288, ["IDEOGRAPHIC SPACE", "IDEOGRAPHIC COMMA", "IDEOGRAPHIC FULL STOP", "DITTO MARK"]⟩,
   ⟨12353, ["HIRAGANA LETTER SMALL A", "HIRAGANA LETTER A", "HIRAGANA LETTER SMALL I",
      "HIRAGANA LETTER I", "HIRAGANA LETTER SMALL U", "HIRAGANA LETTER U",
      "HIRAGANA LETTER SMALL E", "HIRAGANA LETTER E", "HIRAGANA LETTER SMALL O",
      "HIRAGANA LETTER O", "HIRAGANA LETTER KA", "HIRAGANA LETTER GA", "HIRAGANA LETTER KI",
      "HIRAGANA LETTER GI", "HIRAGANA LETTER KU", "HIRAGANA LETTER GU", "HIRAGANA LETTER KE",
      "HIRAGANA LETTER GE", "HIRAGANA LETTER KO", "HIRAGANA LETTER GO", "HIRAGANA LETTER SA",
      "HIRAGANA LETTER ZA", "HIRAGANA LETTER SI", "HIRAGANA LETTER ZI", "HIRAGANA LETTER SU",
      "HIRAGANA LETTER ZU", "HIRAGANA LETTER SE", "HIRAGANA LETTER ZE", "HIRAGANA LETTER SO",
      "HIRAGANA LETTER ZO", "HIRAGANA LETTER TA", "HIRAGANA LETTER DA", "HIRAGANA LETTER TI",
      "HIRAGANA LETTER DI", "HIRAGANA LETTER SMALL TU", "HIRAGANA LETTER TU",
      "HIRAGANA LETTER DU", "HIRAGANA LETTER TE", "HIRAGANA LETTER DE", "HIRAGANA LETTER TO",
      "HIRAGANA LETTER DO", "HIRAGANA LETTER NA", "HIRAGANA LETTER NI", "HIRAGANA LETTER NU",
      "HIRAGANA LETTER NE", "HIRAGANA LETTER NO", "HIRAGANA LETTER HA", "HIRAGANA LETTER BA",
      "HIRAGANA LETTER PA", "HIRAGANA LETTER HI", "HIRAGANA LETTER BI", "HIRAGANA LETTER PI",
      "HIRAGANA LETTER HU", "HIRAGANA LETTER BU", "HIRAGANA LETTER PU", "HIRAGANA LETTER HE",
      "HIRAGANA LETTER BE", "HIRAGANA LETTER PE", "HIRAGANA LETTER HO", "HIRAGANA LETTER BO",
      "HIRAGANA LETTER PO", "HIRAGANA LETTER MA", "HIRAGANA LETTER MI", "HIRAGANA LETTER MU",
      "HIRAGANA LETTER ME", "HIRAGANA LETTER MO", "HIRAGANA LETTER SMALL YA",
      "HIRAGANA LETTER YA", "HIRAGANA LETTER SMALL YU", "HIRAGANA LETTER YU",
      "HIRAGANA LETTER SMALL YO", "HIRAGANA LETTER YO", "HIRAGANA LETTER RA",
      "HIRAGANA LETTER RI", "HIRAGANA LETTER RU", "HIRAGANA LETTER RE", "HIRAGANA LETTER RO",
      "HIRAGANA LETTER SMALL WA", "HIRAGANA LETTER WA", "HIRAGANA LETTER WI",
      "HIRAGANA LETTER WE", "HIRAGANA LETTER WO", "HIRAGANA LETTER N", "HIRAGANA LETTER VU",
      "HIRAGANA LETTER SMALL KA", "HIRAGANA LETTER SMALL KE"]⟩,
   ⟨12449, ["KATAKANA LETTER SMALL A", "KATAKANA LETTER A", "KATAKANA LETTER SMALL I",
      "KATAKANA LETTER I", "KATAKANA LETTER SMALL U", "KATAKANA LETTER U",
      "KATAKANA LETTER SMALL E", "KATAKANA LETTER E", "KATAKANA LETTER SMALL O",
      "KATAKANA LETTER O", "KATAKANA LETTER KA", "KATAKANA LETTER GA", "KATAKANA LETTER KI",
      "KATAKANA LETTER GI", "KATAKANA LETTER KU", "KATAKANA LETTER GU", "KATAKANA LETTER KE",
      "KATAKANA LETTER GE", "KATAKANA LETTER KO", "KATAKANA LETTER GO", "KATAKANA LETTER SA",
      "KATAKANA LETTER ZA", "KATAKANA LETTER SI", "KATAKANA LETTER ZI", "KATAKANA LETTER SU",
      "KATAKANA LETTER ZU", "KATAKANA LETTER SE", "KATAKANA LETTER ZE", "KATAKANA LETTER SO",
      "KATAKANA LETTER ZO", "KATAKANA LETTER TA", "KATAKANA LETTER DA", "KATAKANA LETTER TI",
      "KATAKANA LETTER DI", "KATAKANA LETTER SMALL TU", "KATAKANA LETTER TU",
      "KATAKANA LETTER DU", "KATAKANA LETTER TE", "KATAKANA LETTER DE", "KATAKANA LETTER TO",
      "KATAKANA LETTER DO", "KATAKANA LETTER NA", "KATAKANA LETTER NI", "KATAKANA LETTER NU",
      "KATAKANA LETTER NE", "KATAKANA LETTER NO", "KATAKANA LETTER HA", "KATAKANA LETTER BA",
      "KATAKANA LETTER PA", "KATAKANA LETTER HI", "KATAKANA LETTER BI", "KATAKANA LETTER PI",
      "KATAKANA LETTER HU", "KATAKANA LETTER BU", "KATAKANA LETTER PU", "KATAKANA LETTER HE",
      "KATAKANA LETTER BE", "KATAKANA LETTER PE", "KATAKANA LETTER HO", "KATAKANA LETTER BO",
      "KATAKANA LETTER PO", "KATAKANA LETTER MA", "KATAKANA LETTER MI", "KATAKANA LETTER MU",
      "KATAKANA LETTER ME", "KATAKANA LETTER MO", "KATAKANA LETTER SMALL YA",
      "KATAKANA LETTER YA", "KATAKANA LETTER SMALL YU", "KATAKANA LETTER YU",
      "KATAKANA LETTER SMALL YO", "KATAKANA LETTER YO", "KATAKANA LETTER RA",
      "KATAKANA LETTER RI", "KATAKANA LETTER RU", "KATAKANA LETTER RE", "KATAKANA LETTER RO",
      "KATAKANA LETTER SMALL WA", "KATAKANA LETTER WA", "KATAKANA LETTER WI",
      "KATAKANA LETTER WE", "KATAKANA LETTER WO", "KATAKANA LETTER N", "KATAKANA LETTER VU",
      "KATAKANA LETTER SMALL KA", "KATAKANA LETTER SMALL KE", "KATAKANA LETTER VA",
      "KATAKANA LETTER VI", "KATAKANA LETTER VE", "KATAKANA LETTER VO"]⟩,
   ⟨1632, ["ARABIC-INDIC DIGIT ZERO", "ARABIC-INDIC DIGIT ONE", "ARABIC-INDIC DIGIT TWO",
      "ARABIC-INDIC DIGIT THREE", "ARABIC-INDIC DIGIT FOUR", "ARABIC-INDIC DIGIT FIVE",
      "ARABIC-INDIC DIGIT SIX", "ARABIC-INDIC DIGIT SEVEN", "ARABIC-INDIC DIGIT EIGHT",
      "ARABIC-INDIC DIGIT NINE"]⟩,
   ⟨1776, ["EXTENDED ARABIC-INDIC DIGIT ZERO", "EXTENDED ARABIC-INDIC DIGIT ONE",
      "EXTENDED ARABIC-INDIC DIGIT TWO", "EXTENDED ARABIC-INDIC DIGIT THREE",
      "EXTENDED ARABIC-INDIC DIGIT FOUR", "EXTENDED ARABIC-INDIC DIGIT FIVE",
      "EXTENDED ARABIC-INDIC DIGIT SIX", "EXTENDED ARABIC-INDIC DIGIT SEVEN",
      "EXTENDED ARABIC-INDIC DIGIT EIGHT", "EXTENDED ARABIC-INDIC DIGIT NINE"]⟩,
   ⟨2406, ["DEVANAGARI DIGIT ZERO", "DEVANAGARI DIGIT ONE", "DEVANAGARI DIGIT TWO",
      "DEVANAGARI DIGIT THREE", "DEVANAGARI DIGIT FOUR", "DEVANAGARI DIGIT FIVE",
      "DEVANAGARI DIGIT SIX", "DEVANAGARI DIGIT SEVEN", "DEVANAGARI DIGIT EIGHT",
      "DEVANAGARI DIGIT NINE"]⟩,
   ⟨65279, ["ZERO WIDTH NO-BREAK SPACE"]⟩,
   ⟨65296, ["FULLWIDTH DIGIT ZERO", "FULLWIDTH DIGIT ONE", "FULLWIDTH DIGIT TWO",
      "FULLWIDTH DIGIT THREE", "FULLWIDTH DIGIT FOUR", "FULLWIDTH DIGIT FIVE",
      "FULLWIDTH DIGIT SIX", "FULLWIDTH DIGIT SEVEN", "FULLWIDTH DIGIT EIGHT",
      "FULLWIDTH DIGIT NINE"]⟩,
   ⟨65533, ["REPLACEMENT CHARACTER"]⟩,
   ⟨128512, ["GRINNING FACE", "GRINNING FACE WITH SMILING EYES", "FACE WITH TEARS OF JOY",
      "SMILING FACE WITH OPEN MOUTH", "SMILING FACE WITH OPEN MOUTH AND SMILING EYES",
      "SMILING FACE WITH OPEN MOUTH AND COLD SWEAT",
      "SMILING FACE WITH OPEN MOUTH AND TIGHTLY-CLOSED EYES", "SMILING FACE WITH HALO",
      "SMILING FACE WITH HORNS", "WINKING FACE", "SMILING FACE WITH SMILING EYES",
      "FACE SAVOURING DELICIOUS FOOD", "RELIEVED FACE", "SMILING FACE WITH HEART-SHAPED EYES",
      "SMILING FACE WITH SUNGLASSES", "SMIRKING FACE", "NEUTRAL FACE", "EXPRESSIONLESS FACE",
      "UNAMUSED FACE", "FACE WITH COLD SWEAT", "PENSIVE FACE", "CONFUSED FACE", "CONFOUNDED FACE",
      "KISSING FACE", "FACE THROWING A KISS", "KISSING FACE WITH SMILING EYES",
      "KISSING FACE WITH CLOSED EYES", "FACE WITH STUCK-OUT TONGUE",
      "FACE WITH STUCK-OUT TONGUE AND WINKING EYE",
      "FACE WITH STUCK-OUT TONGUE AND TIGHTLY-CLOSED EYES", "DISAPPOINTED FACE", "WORRIED FACE",
      "ANGRY FACE", "POUTING FACE", "CRYING FACE", "PERSEVERING FACE",
      "FACE WITH LOOK OF TRIUMPH", "DISAPPOINTED BUT RELIEVED FACE",
      "FROWNING FACE WITH OPEN MOUTH", "ANGUISHED FACE", "FEARFUL FACE", "WEARY FACE",
      "SLEEPY FACE", "TIRED FACE", "GRIMACING FACE", "LOUDLY CRYING FACE", "FACE WITH OPEN MOUTH",
      "HUSHED FACE", "FACE WITH OPEN MOUTH AND COLD SWEAT", "FACE SCREAMING IN FEAR",
      "ASTONISHED FACE", "FLUSHED FACE", "SLEEPING FACE", "DIZZY FACE", "FACE WITHOUT MOUTH",
      "FACE WITH MEDICAL MASK", "GRINNING CAT FACE WITH SMILING EYES",
      "CAT FACE WITH TEARS OF JOY", "SMILING CAT FACE WITH OPEN MOUTH",
      "SMILING CAT FACE WITH HEART-SHAPED EYES", "CAT FACE WITH WRY SMILE",
      "KISSING CAT FACE WITH CLOSED EYES", "POUTING CAT FACE", "CRYING CAT FACE",
      "WEARY CAT FACE", "SLIGHTLY FROWNING FACE", "SLIGHTLY SMILING FACE", "UPSIDE-DOWN FACE",
      "FACE WITH ROLLING EYES", "FACE WITH NO GOOD GESTURE", "FACE WITH OK GESTURE",
      "PERSON BOWING DEEPLY", "SEE-NO-EVIL MONKEY", "HEAR-NO-EVIL MONKEY", "SPEAK-NO-EVIL MONKEY",
      "HAPPY PERSON RAISING ONE HAND", "PERSON RAISING BOTH HANDS IN CELEBRATION",
      "PERSON FROWNING", "PERSON WITH POUTING FACE", "PERSON WITH FOLDED HANDS"]⟩]

def NamedRun.code? (run : NamedRun) (name : String) : Option Nat :=
  (run.names.findIdx? (· == name)).map (run.first + ·)

/--
The code point of a character by its name, in any letter case. The names of characters outside the
tables are left out, so an expression with such a name is refused, though the name is a good one.
-/
def namedCode? (name : String) : Option Nat :=
  let name := name.toUpper
  secondNames.lookup name <|> namedRuns.findSome? (·.code? name)

end JsonSchema.Regex
