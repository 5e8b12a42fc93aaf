/-!
# Media types of applications

Extensions by media type, for the types of content of an application that are standards or are not
registered.
-/

namespace ContentImport.MediaType

/-- Extensions by the part of a standard `application` type behind the slash. -/
def standard : List (String × List String) :=
  [ ("acad", ["dwg"]),
    ("andrew-inset", ["ez"]),
    ("annodex", ["anx"]),
    ("applixware", ["aw"]),
    ("atom+xml", ["atom"]),
    ("atomcat+xml", ["atomcat"]),
    ("atomsvc+xml", ["atomsvc"]),
    ("bdoc", ["bdoc"]),
    ("ccxml+xml", ["ccxml"]),
    ("cdmi-capability", ["cdmia"]),
    ("cdmi-container", ["cdmic"]),
    ("cdmi-domain", ["cdmid"]),
    ("cdmi-object", ["cdmio"]),
    ("cdmi-queue", ["cdmiq"]),
    ("cu-seeme", ["cu"]),
    ("dash+xml", ["mpd"]),
    ("davmount+xml", ["davmount"]),
    ("directx", ["x"]),
    ("docbook+xml", ["dbk"]),
    ("dssc+der", ["dssc"]),
    ("dssc+xml", ["xdssc"]),
    ("ecmascript", ["ecma", "es"]),
    ("emma+xml", ["emma"]),
    ("envoy", ["evy"]),
    ("epub+zip", ["epub"]),
    ("etl", ["etl"]),
    ("exi", ["exi"]),
    ("font-sfnt", ["otf"]),
    ("font-tdpfr", ["pfr"]),
    ("font-woff", ["woff"]),
    ("fractals", ["fif"]),
    ("fsharp-script", ["fsscript", "fsx"]),
    ("futuresplash", ["spl"]),
    ("geo+json", ["geojson"]),
    ("gml+xml", ["gml"]),
    ("gpx+xml", ["gpx"]),
    ("gxf", ["gxf"]),
    ("gzip", ["gz"]),
    ("hjson", ["hjson"]),
    ("hta", ["hta"]),
    ("hyperstudio", ["stk"]),
    ("inkml+xml", ["ink", "inkml"]),
    ("internet-property-stream", ["acx"]),
    ("ipfix", ["ipfix"]),
    ("java-archive", ["ear", "jar", "war"]),
    ("java-serialized-object", ["ser"]),
    ("javascript", ["mjs"]),
    ("json", ["json"]),
    ("json5", ["json5"]),
    ("jsonml+json", ["jsonml"]),
    ("ld+json", ["jsonld"]),
    ("liquidmotion", ["jck", "jcz"]),
    ("lost+xml", ["lostxml"]),
    ("mac-binhex40", ["hqx"]),
    ("mac-compactpro", ["cpt"]),
    ("mads+xml", ["mads"]),
    ("manifest+json", ["webmanifest"]),
    ("marc", ["mrc"]),
    ("marcxml+xml", ["mrcx"]),
    ("mathematica", ["ma", "mb", "nb"]),
    ("mathml+xml", ["mathml"]),
    ("mbox", ["mbox"]),
    ("mediaservercontrol+xml", ["mscml"]),
    ("metalink+xml", ["metalink"]),
    ("metalink4+xml", ["meta4"]),
    ("mets+xml", ["mets"]),
    ("mods+xml", ["mods"]),
    ("mp21", ["m21", "mp21"]),
    ("mp4", ["mp4s"]),
    ("mpeg", ["amc"]),
    ("ms-vsi", ["vsi"]),
    ("msaccess", ["accdb", "accde", "accdt", "ade", "adp", "mda", "mde"]),
    ("msaccess.addin", ["accda"]),
    ("msaccess.cab", ["accdc"]),
    ("msaccess.ftemplate", ["accft"]),
    ("msaccess.runtime", ["accdr"]),
    ("msaccess.webapplication", ["accdw"]),
    ("msword", ["doc", "dot", "wbk", "wiz"]),
    ("mxf", ["mxf"]),
    ("n-quads", ["nq"]),
    ("n-triples", ["nt"]),
    ("oda", ["oda"]),
    ("oebps-package+xml", ["opf"]),
    ("ogg", ["ogx"]),
    ("olescript", ["axs"]),
    ("omdoc+xml", ["omdoc"]),
    ("onenote", ["one", "onea", "onepkg", "onetmp", "onetoc", "onetoc2"]),
    ("opensearchdescription+xml", ["osdx"]),
    ("oxps", ["oxps"]),
    ("patch-ops-error+xml", ["xer"]),
    ("pdf", ["pdf"]),
    ("pgp-encrypted", ["pgp"]),
    ("pgp-signature", ["asc", "sig"]),
    ("pics-rules", ["prf"]),
    ("pkcs10", ["p10"]),
    ("pkcs7-mime", ["p7c", "p7m"]),
    ("pkcs7-signature", ["p7s"]),
    ("pkcs8", ["p8"]),
    ("pkix-attr-cert", ["ac"]),
    ("pkix-crl", ["crl"]),
    ("pkix-pkipath", ["pkipath"]),
    ("pkixcmp", ["pki"]),
    ("postscript", ["ai", "eps", "ps"]),
    ("powershell", ["psc1"]),
    ("prs.cww", ["cww"]),
    ("pskc+xml", ["pskcxml"]),
    ("raml+yaml", ["raml"]),
    ("rat-file", ["rat"]),
    ("rdf+xml", ["rdf"]),
    ("reginfo+xml", ["rif"]),
    ("relax-ng-compact-syntax", ["rnc"]),
    ("resource-lists+xml", ["rl"]),
    ("resource-lists-diff+xml", ["rld"]),
    ("rpki-ghostbusters", ["gbr"]),
    ("rpki-manifest", ["mft"]),
    ("rpki-roa", ["roa"]),
    ("rsd+xml", ["rsd"]),
    ("rss+xml", ["rss"]),
    ("rtf", ["rtf"]),
    ("sbml+xml", ["sbml"]),
    ("scvp-cv-request", ["scq"]),
    ("scvp-cv-response", ["scs"]),
    ("scvp-vp-request", ["spq"]),
    ("scvp-vp-response", ["spp"]),
    ("sdp", ["sdp"]),
    ("set-payment-initiation", ["setpay"]),
    ("set-registration-initiation", ["setreg"]),
    ("shf+xml", ["shf"]),
    ("smil+xml", ["smil"]),
    ("sparql-query", ["rq"]),
    ("sparql-results+xml", ["srx"]),
    ("srgs", ["gram"]),
    ("srgs+xml", ["grxml"]),
    ("sru+xml", ["sru"]),
    ("ssdl+xml", ["ssdl"]),
    ("ssml+xml", ["ssml"]),
    ("step", ["step", "stp"]),
    ("streamingmedia", ["ssm"]),
    ("tei+xml", ["tei", "teicorpus"]),
    ("thraud+xml", ["tfi"]),
    ("timestamped-data", ["tsd"]),
    ("trig", ["trig"]),
    ("voicexml+xml", ["vxml"]),
    ("vsix", ["vsix"]),
    ("wasm", ["wasm"]),
    ("widget", ["wgt"]),
    ("windows-library+xml", ["library-ms"]),
    ("windows-search-connector+xml", ["searchconnector-ms"]),
    ("winhlp", ["hlp"]),
    ("wlmoviemaker", ["wlmp"]),
    ("wspolicy+xml", ["wspolicy"]),
    ("xaml+xml", ["xaml"]),
    ("xcap-diff+xml", ["xdf"]),
    ("xenc+xml", ["xenc"]),
    ("xhtml+xml", ["xht", "xhtml"]),
    ("xml", ["asa", "asax", "ascx", "ashx", "asmx", "aspx", "config", "coverage", "datasource",
      "dgml", "filters", "generictest", "hxa", "hxc", "hxe", "hxf", "hxk", "hxv", "loadtest",
      "master", "mtx", "orderedtest", "psess", "rdlc", "resx", "rng", "ruleset", "settings",
      "sitemap", "skin", "snippet", "svc", "testrunconfig", "testsettings", "trx", "vcproj",
      "vcxproj", "vscontent", "vsmdi", "webtest", "wiq", "xmta", "xsc", "xss"]),
    ("xop+xml", ["xop"]),
    ("xproc+xml", ["xpl"]),
    ("xspf+xml", ["xspf"]),
    ("xv+xml", ["mxml", "xhvml", "xvm", "xvml"]),
    ("yang", ["yang"]),
    ("yin+xml", ["yin"]),
    ("zip", ["zip"]) ]

/-- Extensions by the part of an `application` type behind the slash that is not registered. -/
def unregistered : List (String × List String) :=
  [ ("x-7z-compressed", ["7z"]),
    ("x-abiword", ["abw"]),
    ("x-ace-compressed", ["ace"]),
    ("x-arj", ["arj"]),
    ("x-authorware-bin", ["aab", "vox", "x32"]),
    ("x-authorware-map", ["aam"]),
    ("x-authorware-seg", ["aas"]),
    ("x-bcpio", ["bcpio"]),
    ("x-bittorrent", ["torrent"]),
    ("x-blorb", ["blb", "blorb"]),
    ("x-bridge-url", ["adobebridge"]),
    ("x-bzip", ["bz"]),
    ("x-bzip2", ["boz", "bz2"]),
    ("x-cbr", ["cb7", "cba", "cbr", "cbt", "cbz"]),
    ("x-cdf", ["cdf"]),
    ("x-cdlink", ["vcd"]),
    ("x-cfs-compressed", ["cfs"]),
    ("x-chat", ["chat"]),
    ("x-chess-pgn", ["pgn"]),
    ("x-chrome-extension", ["crx"]),
    ("x-cocoa", ["cco"]),
    ("x-compress", ["z"]),
    ("x-compressed", ["tgz"]),
    ("x-cpio", ["cpio"]),
    ("x-csh", ["csh"]),
    ("x-debian-package", ["udeb"]),
    ("x-dgc-compressed", ["dgc"]),
    ("x-director", ["cct", "cst", "cxt", "dcr", "dir", "dxr", "fgd", "swa", "w3d"]),
    ("x-doom", ["wad"]),
    ("x-dtbncx+xml", ["ncx"]),
    ("x-dtbook+xml", ["dtb"]),
    ("x-dtbresource+xml", ["res"]),
    ("x-dvi", ["dvi"]),
    ("x-dxf", ["dxf"]),
    ("x-eva", ["eva"]),
    ("x-font-bdf", ["bdf"]),
    ("x-font-ghostscript", ["gsf"]),
    ("x-font-linux-psf", ["psf"]),
    ("x-font-pcf", ["pcf"]),
    ("x-font-snf", ["snf"]),
    ("x-font-type1", ["pfa"]),
    ("x-freearc", ["arc"]),
    ("x-gca-compressed", ["gca"]),
    ("x-glulx", ["ulx"]),
    ("x-gnumeric", ["gnumeric"]),
    ("x-gramps-xml", ["gramps"]),
    ("x-gtar", ["gtar"]),
    ("x-hdf", ["hdf"]),
    ("x-httpd-php", ["php"]),
    ("x-install-instructions", ["install"]),
    ("x-internet-signup", ["ins", "isp"]),
    ("x-iphone", ["iii"]),
    ("x-itunes-ipa", ["ipa"]),
    ("x-itunes-ipg", ["ipg"]),
    ("x-itunes-ipsw", ["ipsw"]),
    ("x-itunes-ite", ["ite"]),
    ("x-itunes-itlp", ["itlp"]),
    ("x-itunes-itms", ["itms"]),
    ("x-itunes-itpc", ["itpc"]),
    ("x-java-applet", ["class"]),
    ("x-java-archive-diff", ["jardiff"]),
    ("x-java-jnlp-file", ["jnlp"]),
    ("x-koan", ["skp"]),
    ("x-latex", ["latex"]),
    ("x-lua-bytecode", ["luac"]),
    ("x-lzh-compressed", ["lha"]),
    ("x-makeself", ["run"]),
    ("x-mie", ["mie"]),
    ("x-miva-compiled", ["mvc"]),
    ("x-mmxp", ["mxp"]),
    ("x-mobipocket-ebook", ["mobi", "prc"]),
    ("x-ms-application", ["application"]),
    ("x-ms-license", ["slupkg-ms"]),
    ("x-ms-manifest", ["manifest"]),
    ("x-ms-reader", ["lit"]),
    ("x-ms-shortcut", ["lnk"]),
    ("x-ms-vsto", ["vsto"]),
    ("x-ms-wmd", ["wmd"]),
    ("x-ms-wmz", ["wmz"]),
    ("x-ms-xbap", ["xbap"]),
    ("x-msaccess", ["mdb"]),
    ("x-msbinder", ["obd"]),
    ("x-mscardfile", ["crd"]),
    ("x-msclip", ["clp"]),
    ("x-msdownload", ["bat", "com", "dll"]),
    ("x-msmediaview", ["m13", "m14", "mvb"]),
    ("x-msmetafile", ["emf", "wmf"]),
    ("x-msmoney", ["mny"]),
    ("x-mspublisher", ["pub"]),
    ("x-msschedule", ["scd"]),
    ("x-msterminal", ["trm"]),
    ("x-mswrite", ["wri"]),
    ("x-netcdf", ["nc"]),
    ("x-ns-proxy-autoconfig", ["pac"]),
    ("x-nzb", ["nzb"]),
    ("x-oleobject", ["hhc"]),
    ("x-perfmon", ["pma", "pmc", "pml", "pmr", "pmw"]),
    ("x-perl", ["pl", "pm"]),
    ("x-pkcs12", ["p12", "pfx"]),
    ("x-pkcs7-certificates", ["p7b", "spc"]),
    ("x-pkcs7-certreqresp", ["p7r"]),
    ("x-podcast", ["pcast"]),
    ("x-quicktimeplayer", ["qtl"]),
    ("x-rar-compressed", ["rar"]),
    ("x-research-info-systems", ["ris"]),
    ("x-safari-safariextz", ["safariextz"]),
    ("x-safari-webarchive", ["webarchive"]),
    ("x-sgimb", ["sgimb"]),
    ("x-sh", ["sh"]),
    ("x-shar", ["shar"]),
    ("x-shockwave-flash", ["mfp", "swf"]),
    ("x-silverlight-app", ["xap"]),
    ("x-smaf", ["mmf"]),
    ("x-sql", ["sql"]),
    ("x-stuffit", ["sit"]),
    ("x-stuffitx", ["sitx"]),
    ("x-subrip", ["srt"]),
    ("x-sv4cpio", ["sv4cpio"]),
    ("x-sv4crc", ["sv4crc"]),
    ("x-t3vm-image", ["t3"]),
    ("x-tads", ["gam"]),
    ("x-tar", ["tar"]),
    ("x-tcl", ["tcl", "tk"]),
    ("x-tex", ["tex"]),
    ("x-tex-tfm", ["tfm"]),
    ("x-texinfo", ["texi", "texinfo"]),
    ("x-tgif", ["obj"]),
    ("x-troff", ["roff", "t", "tr"]),
    ("x-troff-man", ["man"]),
    ("x-troff-me", ["me"]),
    ("x-troff-ms", ["ms"]),
    ("x-ustar", ["ustar"]),
    ("x-virtualbox-hdd", ["hdd"]),
    ("x-virtualbox-ova", ["ova"]),
    ("x-virtualbox-ovf", ["ovf"]),
    ("x-virtualbox-vbox", ["vbox"]),
    ("x-virtualbox-vbox-extpack", ["vbox-extpack"]),
    ("x-virtualbox-vdi", ["vdi"]),
    ("x-virtualbox-vhd", ["vhd"]),
    ("x-virtualbox-vmdk", ["vmdk"]),
    ("x-wais-source", ["src"]),
    ("x-web-app-manifest+json", ["webapp"]),
    ("x-wlpg-detect", ["wlpginstall"]),
    ("x-wlpg3-detect", ["wlpginstall3"]),
    ("x-x509-ca-cert", ["cer", "crt", "der", "pem"]),
    ("x-xfig", ["fig"]),
    ("x-xliff+xml", ["xlf"]),
    ("x-xpinstall", ["xpi"]),
    ("x-xz", ["xz"]),
    ("x-zmachine", ["z1", "z2", "z3", "z4", "z5", "z6", "z7", "z8"]) ]

end ContentImport.MediaType
