import DockerRegistry.Lib.Sha2
import DockerRegistry.Lib.GoPath
import DockerRegistry.Digest
import DockerRegistry.Storage.Driver.Inmemory
import DockerRegistry.Storage.BlobWriter
import DockerRegistry.Storage.ResumableDigest
import DockerRegistry.Storage.Paths
import DockerRegistry.Storage.Driver.Walk
import DockerRegistry.Storage.TagStore
import DockerRegistry.Lib.ListOrder
import DockerRegistry.Storage.TagList
import DockerRegistry.Storage.Catalog
import DockerRegistry.Storage.Driver.S3
import DockerRegistry.Lib.GoDecimal
import DockerRegistry.Handlers.BlobUpload
import DockerRegistry.Client.BlobUpload
import DockerRegistry.Auth.Htpasswd
import DockerRegistry.Storage.ManifestListHandler
import DockerRegistry.Lib.Uuid
import DockerRegistry.Lib.GoTime
import DockerRegistry.Storage.PurgeUploads
import DockerRegistry.Configuration.Parser
import DockerRegistry.Proxy.Scheduler
import DockerRegistry.Storage.Io
import DockerRegistry.Auth.Challenge
import DockerRegistry.Api.HeaderParser
import DockerRegistry.Lib.GoBufio
import DockerRegistry.Storage.FileReader
import DockerRegistry.Client.HttpReader
import DockerRegistry.Storage.Driver.Regulator
import DockerRegistry.Lib.Encoding
import DockerRegistry.Auth.Thumbprint
import DockerRegistry.Storage.Driver.InmemoryFs
import DockerRegistry.Storage.Driver.InmemoryTree
import DockerRegistry.Lib.GoMap
import DockerRegistry.Auth.AccessController
import DockerRegistry.Reference
import DockerRegistry.Storage.PathLayout
import DockerRegistry.Notifications.EventQueue
import DockerRegistry.Lib.Mux
import DockerRegistry.Api.Routes
import DockerRegistry.Storage.DescriptorCache
